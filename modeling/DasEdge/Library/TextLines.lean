import DasEdge.Library.CString
import Mathlib.Data.List.Infix

/-!
# Lines of a text

The lines of a text end with a carriage return and a line feed, which are not in a line. A text that
arrives in pieces is cut anywhere: either inside a line, or behind some of them.
-/

namespace DasEdge.Library

/-- The end of a line. -/
def crlf : List UInt8 := [13, 10]

/-- The text before the first end of a line, and the text behind it. -/
def crlfSplit : List UInt8 → Option (List UInt8 × List UInt8)
  | [] => none
  | c :: text =>
    if (c :: text).take 2 = crlf then some ([], text.drop 1) else (crlfSplit text).map fun parts =>
      (c :: parts.1, parts.2)

/-- A line has no null character and no character of an end of a line. -/
def IsLine (line : List UInt8) : Prop := ∀ c ∈ line, c ≠ 0 ∧ c ≠ 13 ∧ c ≠ 10

instance decidableIsLine (line : List UInt8) : Decidable (IsLine line) :=
  inferInstanceAs (Decidable (∀ c ∈ line, _))

/-- Lines with their ends. -/
def textLines (lines : List (List UInt8)) : List UInt8 := lines.flatMap (· ++ crlf)

/-- Lines that begin with one. -/
theorem textLines_cons (line : List UInt8) (lines : List (List UInt8)) :
    textLines (line :: lines) = line ++ crlf ++ textLines lines := List.flatMap_cons

/-- A text that is split gets shorter. -/
theorem crlfSplit_length {text line rest : List UInt8} (h : crlfSplit text = some (line, rest)) :
    rest.length < text.length := by
  induction text generalizing line with
  | nil => cases h
  | cons c text ih =>
    rw [crlfSplit] at h
    split at h
    · cases h
      rw [List.length_drop, List.length_cons]
      omega
    · obtain ⟨parts, hparts, heq⟩ := Option.map_eq_some_iff.mp h
      obtain ⟨-, rfl⟩ := Prod.mk.inj heq
      exact Nat.lt_succ_of_lt (ih hparts)

/-- A text without a line feed has no end of a line. -/
theorem crlfSplit_none {text : List UInt8} (h : (10 : UInt8) ∉ text) : crlfSplit text = none := by
  induction text with
  | nil => rfl
  | cons c text ih =>
    have hstart : (c :: text).take 2 ≠ crlf := by
      intro hcrlf
      have hmem : (10 : UInt8) ∈ (c :: text).take 2 := by rw [hcrlf]; decide
      exact h (List.mem_of_mem_take hmem)
    rw [crlfSplit, if_neg hstart, ih fun hmem => h (List.mem_cons_of_mem c hmem), Option.map_none]

/-- The end of a line where a text is split is the first one. -/
theorem crlfSplit_first {text line rest before : List UInt8} (h : crlfSplit text = some (line, rest))
    (hbefore : before ++ crlf <+: text) : line.length ≤ before.length := by
  induction text generalizing line before with
  | nil => cases h
  | cons c text ih =>
    rw [crlfSplit] at h
    split at h
    · cases h
      exact Nat.zero_le _
    · next hstart =>
      obtain ⟨parts, hparts, heq⟩ := Option.map_eq_some_iff.mp h
      obtain ⟨rfl, rfl⟩ := Prod.mk.inj heq
      cases before with
      | nil =>
        have htake := List.prefix_iff_eq_take.mp hbefore
        exact absurd htake.symm hstart
      | cons d before =>
        rw [List.cons_append] at hbefore
        exact Nat.succ_le_succ (ih hparts (List.cons_prefix_cons.mp hbefore).2)

/-- A text that is split is put together again, and the first part has no end of a line. -/
theorem eq_of_crlfSplit {text line rest : List UInt8} (h : crlfSplit text = some (line, rest)) :
    text = line ++ crlf ++ rest ∧ ¬ crlf <:+: line := by
  induction text generalizing line with
  | nil => cases h
  | cons c text ih =>
    rw [crlfSplit] at h
    split at h
    · next hstart =>
      cases h
      refine ⟨?_, fun hinside => absurd hinside.length_le (by decide)⟩
      rw [List.nil_append, ← hstart]
      cases text with
      | nil => cases hstart
      | cons d text => rfl
    · next hstart =>
      obtain ⟨parts, hparts, heq⟩ := Option.map_eq_some_iff.mp h
      obtain ⟨rfl, rfl⟩ := Prod.mk.inj heq
      obtain ⟨rfl, hnone⟩ := ih hparts
      refine ⟨rfl, fun hinside => ?_⟩
      rcases List.infix_cons_iff.mp hinside with hpre | hinside
      · have hstart' : crlf <+: c :: (parts.1 ++ crlf ++ parts.2) := by
          rw [List.append_assoc]
          exact hpre.trans (List.prefix_append (c :: parts.1) _)
        exact hstart (List.prefix_iff_eq_take.mp hstart').symm
      · exact hnone hinside

/-- A text that is not split has no end of a line. -/
theorem not_infix_of_crlfSplit {text : List UInt8} (h : crlfSplit text = none) : ¬ crlf <:+: text := by
  induction text with
  | nil => exact fun hinside => absurd hinside.length_le (by decide)
  | cons c text ih =>
    rw [crlfSplit] at h
    split at h
    · cases h
    · next hstart =>
      intro hinside
      rcases List.infix_cons_iff.mp hinside with hpre | hinside
      · exact hstart (List.prefix_iff_eq_take.mp hpre).symm
      · exact ih (Option.map_eq_none_iff.mp h) hinside

/-- A text without the end of a line is split from what comes behind the end that it gets. -/
theorem crlfSplit_of_absent {line : List UInt8} (hline : ¬ crlf <:+: line) (rest : List UInt8) :
    crlfSplit (line ++ crlf ++ rest) = some (line, rest) := by
  induction line with
  | nil => rfl
  | cons c line ih =>
    have hstart : (c :: (line ++ crlf ++ rest)).take 2 ≠ crlf := by
      intro hcrlf
      cases line with
      | nil => exact absurd (List.cons.inj (List.cons.inj hcrlf).2).1 (by decide)
      | cons d line => exact hline ⟨[], line, by rw [← hcrlf]; rfl⟩
    rw [List.cons_append, List.cons_append, crlfSplit, if_neg hstart,
      ih fun hinside => hline (hinside.trans (List.suffix_cons c line).isInfix), Option.map_some]

/-- A line has no end of a line in it. -/
theorem IsLine.unbroken {line : List UInt8} (hline : IsLine line) : ¬ crlf <:+: line :=
  fun hinside => (hline 13 (hinside.subset (by decide))).2.1 rfl

/-- A line is split from what comes behind its end. -/
theorem crlfSplit_line {line : List UInt8} (hline : IsLine line) (rest : List UInt8) :
    crlfSplit (line ++ crlf ++ rest) = some (line, rest) := crlfSplit_of_absent hline.unbroken rest

/-- A piece of a text that begins with a line is cut inside the line and its end, or it has the line
and a piece of the rest. -/
theorem prefix_line {line rest piece : List UInt8} (hline : IsLine line)
    (h : piece <+: line ++ crlf ++ rest) :
    (10 : UInt8) ∉ piece ∨ ∃ piece', piece = line ++ crlf ++ piece' ∧ piece' <+: rest := by
  rcases List.prefix_or_prefix_of_prefix h (List.prefix_append (line ++ crlf) rest)
    with hpiece | ⟨piece', hpiece'⟩
  · rw [crlf, List.append_cons line 13 [10], List.prefix_concat_iff] at hpiece
    rcases hpiece with rfl | hpiece
    · exact .inr ⟨[], by simp [crlf], List.nil_prefix⟩
    · refine .inl fun hmem => ?_
      rcases List.mem_append.mp (hpiece.subset hmem) with hmem | hmem
      · exact (hline 10 hmem).2.2 rfl
      · exact absurd hmem (by decide)
  · refine .inr ⟨piece', hpiece'.symm, ?_⟩
    rw [← hpiece'] at h
    exact (List.prefix_append_right_inj _).mp h

/-- Whether a line begins with a text does not depend on what comes behind it. -/
theorem strBeginWith_line {line pre : List UInt8} (hpre : (13 : UInt8) ∉ pre.map toLower)
    (rest : List UInt8) :
    strBeginWith (line ++ crlf ++ rest) pre = strBeginWith line pre := by
  rcases Nat.lt_or_ge line.length pre.length with hlt | hge
  · have hshort : (line.take pre.length).map toLower ≠ pre.map toLower := by
      intro heq
      have hlength := congrArg List.length heq
      rw [List.length_map, List.length_map, List.length_take] at hlength
      omega
    have hlong : ((line ++ crlf ++ rest).take pre.length).map toLower ≠ pre.map toLower := by
      intro heq
      have hmem : (13 : UInt8) ∈ (line ++ crlf ++ rest).take pre.length := by
        rw [List.mem_take_iff_getElem]
        refine ⟨line.length, ?_, ?_⟩
        · simp only [List.length_append, crlf, List.length_cons]
          omega
        · simp [crlf]
      have hlower := List.mem_map_of_mem (f := toLower) hmem
      rw [heq] at hlower
      exact hpre hlower
    rw [strBeginWith, strBeginWith, decide_eq_false hshort, decide_eq_false hlong]
  · rw [strBeginWith, List.append_assoc, List.take_append_of_le_length hge, ← strBeginWith]

/-- Spaces are skipped inside a line. -/
theorem dropWhile_line (line rest : List UInt8) :
    (line ++ crlf ++ rest).dropWhile (· = 32) = line.dropWhile (· = 32) ++ crlf ++ rest := by
  induction line with
  | nil => rfl
  | cons c line ih =>
    by_cases hc : c = 32
    · rw [List.cons_append, List.cons_append, List.dropWhile_cons_of_pos (by simp [hc]), ih,
        List.dropWhile_cons_of_pos (by simp [hc])]
    · rw [List.cons_append, List.cons_append, List.dropWhile_cons_of_neg (by simp [hc]),
        List.dropWhile_cons_of_neg (by simp [hc]), List.cons_append, List.cons_append]

/-- A known name is passed over inside a line. -/
theorem drop_line {line pre : List UInt8} (h : strBeginWith line pre = true) (rest : List UInt8) :
    (line ++ crlf ++ rest).drop pre.length = line.drop pre.length ++ crlf ++ rest := by
  have hlength : pre.length ≤ line.length := by
    have heq := congrArg List.length (of_decide_eq_true h)
    rw [List.length_map, List.length_map, List.length_take] at heq
    omega
  rw [List.append_assoc, List.drop_append_of_le_length hlength, List.append_assoc]

end DasEdge.Library
