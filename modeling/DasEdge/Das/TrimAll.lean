import DasEdge.Library.MemoryText
import Mathlib.Algebra.Order.Ring.Int
import Mathlib.Data.List.DropRight
import Mathlib.Logic.Function.Basic
import Mathlib.Tactic.Common

/-!
# `das_trim_all`

One pointer comes from the start of a string and one from its end, until each is at a character that is
no blank; a null character goes behind the second one. The second pointer begins in front of the end,
which for the empty string is in front of the string.
-/

namespace DasEdge.Das

open DasEdge.Library

/-- A blank. -/
def isBlank (c : UInt8) : Bool := decide (c = 0x20)

/-- The memory with a string and its null character from the place 0 on. -/
def stringMemory (text : List UInt8) (outside : ℤ → UInt8) (place : ℤ) : UInt8 :=
  if 0 ≤ place ∧ place ≤ text.length then text.getD place.toNat 0 else outside place

/-- The first loop: where `start` stops, if not behind `end`, and the places that are read. -/
def trimStart (memory : ℤ → UInt8) (last : ℤ) : ℕ → ℤ → Option ℤ × List ℤ
  | 0, start => (some start, [])
  | rounds + 1, start =>
    if ¬ isBlank (memory start) then (some start, [start])
    else if last < start + 1 then (none, [start])
    else ((trimStart memory last rounds (start + 1)).1,
      start :: (trimStart memory last rounds (start + 1)).2)

/-- The second loop: where `end` stops, if not in front of `start`, and the places that are read. -/
def trimEnd (memory : ℤ → UInt8) (start : ℤ) : ℕ → ℤ → Option ℤ × List ℤ
  | 0, last => (some last, [])
  | rounds + 1, last =>
    if ¬ isBlank (memory last) then (some last, [last])
    else if last - 1 < start then (none, [last])
    else ((trimEnd memory start rounds (last - 1)).1, last :: (trimEnd memory start rounds (last - 1)).2)

/-- The memory afterwards, the pointer that is returned, and the places that have been read and written
after `strlen`. -/
structure TrimRun where
  memory : ℤ → UInt8
  result : ℤ
  touched : List ℤ

/-- `das_trim_all`. A loop has at most one round more than there are characters. -/
def dasTrimAll (text : List UInt8) (outside : ℤ → UInt8) : TrimRun :=
  let s := stringMemory text outside
  let first := trimStart s (text.length - 1) (text.length + 1) 0
  first.1.elim ⟨Function.update s 0 0, 0, first.2 ++ [0]⟩ fun start =>
    let second := trimEnd s start (text.length + 1) (text.length - 1)
    second.1.elim ⟨Function.update s 0 0, 0, first.2 ++ second.2 ++ [0]⟩ fun last =>
      ⟨Function.update s (last + 1) 0, start, first.2 ++ second.2 ++ [last + 1]⟩

/-- The string without the blanks at both ends. -/
def trimmed (text : List UInt8) : List UInt8 := (text.dropWhile isBlank).rdropWhile isBlank

/-- Only the string and its null character are read and written, and the string without the blanks at
both ends is returned. -/
structure TrimSafe (text : List UInt8) (outside : ℤ → UInt8) : Prop where
  inside : ∀ place ∈ (dasTrimAll text outside).touched, 0 ≤ place ∧ place ≤ text.length
  returns : TextAt (fun n => (dasTrimAll text outside).memory ((dasTrimAll text outside).result + n))
    (trimmed text)

/-- Characters lie in a memory from a place on. -/
def LiesAt (memory : ℤ → UInt8) (place : ℤ) (text : List UInt8) : Prop :=
  ∀ i (h : i < text.length), memory (place + i) = text[i]

/-- The first character, and those behind it. -/
theorem LiesAt.cons {memory : ℤ → UInt8} {place : ℤ} {c : UInt8} {text : List UInt8}
    (h : LiesAt memory place (c :: text)) : memory place = c ∧ LiesAt memory (place + 1) text := by
  refine ⟨?_, fun i hi => ?_⟩
  · have hread := h 0 (Nat.succ_pos _)
    rwa [Nat.cast_zero, Int.add_zero] at hread
  · have hread := h (i + 1) (Nat.succ_lt_succ hi)
    rwa [Nat.cast_add, Nat.cast_one, Int.add_comm (i : ℤ), ← Int.add_assoc] at hread

/-- The characters in front, and those behind them. -/
theorem LiesAt.append {memory : ℤ → UInt8} {place : ℤ} {front text : List UInt8}
    (h : LiesAt memory place (front ++ text)) :
    LiesAt memory place front ∧ LiesAt memory (place + front.length) text := by
  refine ⟨fun i hi => ?_, fun i hi => ?_⟩
  · rw [h i (by rw [List.length_append]; omega), List.getElem_append_left hi]
  · have hread := h (front.length + i) (by rw [List.length_append]; omega)
    rw [List.getElem_append_right (Nat.le_add_right _ _), Nat.cast_add, ← Int.add_assoc] at hread
    simpa only [Nat.add_sub_cancel_left] using hread

/-- The first loop stops at the first character that is no blank. -/
theorem trimStart_eq {memory : ℤ → UInt8} {start last : ℤ} {text : List UInt8} {rounds : ℕ}
    (htext : LiesAt memory start text) (hne : text ≠ []) (hlast : last = start + text.length - 1)
    (hrounds : text.length ≤ rounds) :
    (trimStart memory last rounds start).1 =
        (if text.dropWhile isBlank = [] then none else some (start + (text.takeWhile isBlank).length)) ∧
      ∀ place ∈ (trimStart memory last rounds start).2, start ≤ place ∧ place ≤ last := by
  induction text generalizing start rounds with
  | nil => exact absurd rfl hne
  | cons c text ih =>
    rw [List.length_cons] at hlast hrounds
    obtain ⟨rounds, rfl⟩ : ∃ k, rounds = k + 1 := ⟨rounds - 1, by omega⟩
    obtain ⟨hread, hnext⟩ := htext.cons
    have hhere : ∀ place ∈ [start], start ≤ place ∧ place ≤ last := by
      intro place hplace
      rw [List.mem_singleton.mp hplace]
      omega
    rw [trimStart, hread]
    by_cases hblank : isBlank c = true
    · rw [if_neg (not_not.mpr hblank), List.dropWhile_cons_of_pos hblank,
        List.takeWhile_cons_of_pos hblank]
      by_cases hmore : text = []
      · subst hmore
        rw [if_pos (by simp at hlast; omega)]
        exact ⟨rfl, hhere⟩
      · have hlength : 0 < text.length := List.length_pos_of_ne_nil hmore
        obtain ⟨hresult, hplaces⟩ := ih hnext hmore (by omega)
          (Nat.le_of_succ_le_succ hrounds)
        rw [if_neg (by omega)]
        refine ⟨hresult.trans ?_, fun place hplace => ?_⟩
        · rw [List.length_cons, Nat.cast_add, Nat.cast_one, Int.add_assoc, Int.add_comm 1]
        · rcases List.mem_cons.mp hplace with rfl | hplace
          · exact hhere place (List.mem_singleton_self place)
          · have := hplaces place hplace
            omega
    · rw [if_pos hblank, List.dropWhile_cons_of_neg hblank, List.takeWhile_cons_of_neg hblank,
        if_neg (List.cons_ne_nil c text)]
      exact ⟨by simp, hhere⟩

/-- The second loop stops at the last character that is no blank. -/
theorem trimEnd_eq {memory : ℤ → UInt8} {start last : ℤ} {text : List UInt8} {rounds : ℕ}
    (htext : LiesAt memory start text) (hne : text ≠ []) (hlast : last = start + text.length - 1)
    (hrounds : text.length ≤ rounds) :
    (trimEnd memory start rounds last).1 =
        (if text.rdropWhile isBlank = [] then none
          else some (start + (text.rdropWhile isBlank).length - 1)) ∧
      ∀ place ∈ (trimEnd memory start rounds last).2, start ≤ place ∧ place ≤ last := by
  induction text using List.reverseRecOn generalizing last rounds with
  | nil => exact absurd rfl hne
  | append_singleton text c ih =>
    rw [List.length_append, List.length_singleton] at hlast hrounds
    obtain ⟨rounds, rfl⟩ : ∃ k, rounds = k + 1 := ⟨rounds - 1, by omega⟩
    obtain ⟨hfront, hend⟩ := htext.append
    obtain rfl : last = start + text.length := by omega
    have hread := hend.cons.1
    have hhere : ∀ place ∈ [start + (text.length : ℤ)], start ≤ place ∧ place ≤ start + text.length := by
      intro place hplace
      rw [List.mem_singleton.mp hplace]
      omega
    rw [trimEnd, hread]
    by_cases hblank : isBlank c = true
    · rw [if_neg (not_not.mpr hblank), List.rdropWhile_concat_pos _ _ _ hblank]
      by_cases hmore : text = []
      · subst hmore
        rw [if_pos (by simp)]
        exact ⟨rfl, hhere⟩
      · have hlength : 0 < text.length := List.length_pos_of_ne_nil hmore
        obtain ⟨hresult, hplaces⟩ := ih hfront hmore rfl (Nat.le_of_succ_le_succ hrounds)
        rw [if_neg (by omega)]
        refine ⟨hresult, fun place hplace => ?_⟩
        rcases List.mem_cons.mp hplace with rfl | hplace
        · exact hhere _ (List.mem_singleton_self _)
        · have := hplaces place hplace
          omega
    · rw [if_pos hblank, List.rdropWhile_concat_neg _ _ _ hblank, if_neg (by simp)]
      refine ⟨?_, hhere⟩
      rw [List.length_append, List.length_singleton, Nat.cast_add, Nat.cast_one, ← Int.add_assoc,
        Int.add_sub_cancel]

/-- The string lies in its memory. -/
theorem liesAt_stringMemory (text : List UInt8) (outside : ℤ → UInt8) :
    LiesAt (stringMemory text outside) 0 text := by
  intro i hi
  rw [stringMemory, if_pos (by omega), Int.zero_add, Int.toNat_natCast]
  simp [hi]

/-- A null character behind characters makes them a text. -/
theorem LiesAt.textAt {memory : ℤ → UInt8} {place : ℤ} {text : List UInt8} (h : LiesAt memory place text)
    (htext : 0 ∉ text) :
    TextAt (fun n => Function.update memory (place + text.length) 0 (place + n)) text := by
  refine ⟨fun i hi => ?_, Function.update_self (place + text.length) 0 memory, htext⟩
  have hother : place + (i : ℤ) ≠ place + text.length := by omega
  exact (Function.update_of_ne hother 0 memory).trans (h i hi)

/-- A string of blanks only is made empty. -/
theorem trimSafe_of_blanks {text : List UInt8} (hne : text ≠ []) (outside : ℤ → UInt8)
    (hblanks : text.dropWhile isBlank = []) : TrimSafe text outside := by
  have hlast : (text.length : ℤ) - 1 = 0 + text.length - 1 := by omega
  obtain ⟨hstart, hplaces⟩ := trimStart_eq (liesAt_stringMemory text outside) hne hlast
    (Nat.le_succ text.length)
  rw [if_pos hblanks] at hstart
  have hrun : dasTrimAll text outside = ⟨Function.update (stringMemory text outside) 0 0, 0,
      (trimStart (stringMemory text outside) (text.length - 1) (text.length + 1) 0).2 ++ [0]⟩ := by
    simp only [dasTrimAll, hstart, Option.elim_none]
  constructor
  · intro place hplace
    rw [hrun] at hplace
    rcases List.mem_append.mp hplace with hplace | hplace
    · have := hplaces place hplace
      omega
    · rw [List.mem_singleton.mp hplace]
      omega
  · have hempty : LiesAt (stringMemory text outside) 0 [] := fun i hi => absurd hi (Nat.not_lt_zero i)
    rw [hrun, trimmed, hblanks, List.rdropWhile_nil]
    exact hempty.textAt List.not_mem_nil

/-- A string with other characters is cut to these. -/
theorem trimSafe_of_text {text : List UInt8} (htext : 0 ∉ text) (outside : ℤ → UInt8)
    (hrest : text.dropWhile isBlank ≠ []) : TrimSafe text outside := by
  have hne : text ≠ [] := fun hnil => hrest (by rw [hnil, List.dropWhile_nil])
  have hlast : (text.length : ℤ) - 1 = 0 + text.length - 1 := by omega
  obtain ⟨hstart, hplaces⟩ := trimStart_eq (liesAt_stringMemory text outside) hne hlast
    (Nat.le_succ text.length)
  rw [if_neg hrest, Int.zero_add] at hstart
  have hsplit : text.takeWhile isBlank ++ text.dropWhile isBlank = text := List.takeWhile_append_dropWhile
  have hlengths := congrArg List.length hsplit
  rw [List.length_append] at hlengths
  obtain ⟨start, hstartdef⟩ : ∃ start : ℤ, start = (text.takeWhile isBlank).length := ⟨_, rfl⟩
  rw [← hstartdef] at hstart
  have hthere : LiesAt (stringMemory text outside) start (text.dropWhile isBlank) := by
    have hlies := liesAt_stringMemory text outside
    rw [hstartdef, ← Int.zero_add ((text.takeWhile isBlank).length : ℤ)]
    exact (LiesAt.append (hsplit.symm ▸ hlies)).2
  have hlast' : (text.length : ℤ) - 1 = start + (text.dropWhile isBlank).length - 1 := by omega
  obtain ⟨hend, hplaces'⟩ := trimEnd_eq hthere hrest hlast'
    (Nat.le_trans (by omega) (Nat.le_succ text.length))
  change _ = (if trimmed text = [] then none else some (start + (trimmed text).length - 1)) at hend
  -- the first character that is no blank is still there
  have hkept : trimmed text ≠ [] := by
    intro hnil
    have hblank := List.rdropWhile_eq_nil_iff.mp hnil _ (List.head_mem hrest)
    rw [List.head_dropWhile_not isBlank hrest] at hblank
    cases hblank
  rw [if_neg hkept] at hend
  have hplace : start + (trimmed text).length - 1 + 1 = start + (trimmed text).length := by omega
  have hrun : dasTrimAll text outside =
      ⟨Function.update (stringMemory text outside) (start + (trimmed text).length) 0, start,
        (trimStart (stringMemory text outside) (text.length - 1) (text.length + 1) 0).2 ++
          (trimEnd (stringMemory text outside) start (text.length + 1) (text.length - 1)).2 ++
            [start + ((trimmed text).length : ℤ)]⟩ := by
    rw [← hplace]
    simp only [dasTrimAll, hstart, Option.elim_some, hend, trimmed]
  obtain ⟨rest, hparts⟩ : trimmed text <+: text.dropWhile isBlank := List.rdropWhile_prefix isBlank _
  have hshorter := congrArg List.length hparts
  rw [List.length_append] at hshorter
  constructor
  · intro place hmem
    rw [hrun] at hmem
    rcases List.mem_append.mp hmem with hmem | hmem
    · rcases List.mem_append.mp hmem with hmem | hmem
      · have := hplaces place hmem
        omega
      · have := hplaces' place hmem
        omega
    · rw [List.mem_singleton.mp hmem]
      omega
  · rw [hrun]
    refine LiesAt.textAt (LiesAt.append (hparts.symm ▸ hthere)).1 fun hnul => htext ?_
    rw [← hsplit]
    exact List.mem_append_right _ (hparts ▸ List.mem_append_left rest hnul)

/-- Of the empty string the place in front of it is read. -/
theorem dasTrimAll_nil_reads (outside : ℤ → UInt8) : -1 ∈ (dasTrimAll [] outside).touched := by
  have hnul : stringMemory [] outside 0 = 0 := if_pos (by simp)
  have hstart : trimStart (stringMemory [] outside) (([] : List UInt8).length - 1)
      (([] : List UInt8).length + 1) 0 = (some 0, [0]) := by
    rw [trimStart, hnul]
    rfl
  have hend : -1 ∈ (trimEnd (stringMemory [] outside) 0 (([] : List UInt8).length + 1)
      (([] : List UInt8).length - 1)).2 := by
    rw [trimEnd]
    split
    · exact List.mem_singleton_self _
    · split
      · exact List.mem_singleton_self _
      · exact List.mem_cons_self
  simp only [dasTrimAll, hstart, Option.elim_some]
  cases (trimEnd (stringMemory [] outside) 0 (([] : List UInt8).length + 1)
      (([] : List UInt8).length - 1)).1 with
  | none => exact List.mem_append_left _ (List.mem_append_right _ hend)
  | some last => exact List.mem_append_left _ (List.mem_append_right _ hend)

/-- `das_trim_all` stays within the string and gives it without the blanks at its ends, except for the
empty string. -/
theorem dasTrimAll_safe_iff (text : List UInt8) (htext : 0 ∉ text) (outside : ℤ → UInt8) :
    TrimSafe text outside ↔ text ≠ [] := by
  constructor
  · rintro hsafe rfl
    exact absurd (hsafe.inside _ (dasTrimAll_nil_reads outside)).1 (by decide)
  · intro hne
    by_cases hblanks : text.dropWhile isBlank = []
    · exact trimSafe_of_blanks hne outside hblanks
    · exact trimSafe_of_text htext outside hblanks

/-- A letter between blanks. -/
theorem dasTrimAll_safe_letter : TrimSafe [0x20, 0x61, 0x20] fun _ => 0 :=
  (dasTrimAll_safe_iff [0x20, 0x61, 0x20] (by simp) fun _ => 0).mpr (by simp)

/-- The empty string. -/
theorem dasTrimAll_unsafe : ¬ ∀ text : List UInt8, 0 ∉ text → ∀ outside, TrimSafe text outside := by
  intro h
  exact absurd ((h [] List.not_mem_nil fun _ => 0).inside _ (dasTrimAll_nil_reads _)).1 (by decide)

end DasEdge.Das
