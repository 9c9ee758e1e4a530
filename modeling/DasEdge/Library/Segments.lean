import DasEdge.Library.GuardedRun
import Mathlib.Data.List.Infix

/-!
# Segments of a stream

A stream is cut behind each item with which the segment so far is at its end. The cut is the only
one: its segments end where they first can, and what is left behind them has not come to an end.
-/

namespace DasEdge.Library

variable {α β : Type*}

/-- One item more behind the items of a segment: the segment if it ends here, and the items of the
one that has begun. -/
def segmentStep (ends : List α → Bool) (begun : List α) (item : α) : List (List α) × List α :=
  if ends (begun ++ [item]) then ([begun ++ [item]], []) else ([], begun ++ [item])

/-- The segments of a stream, and what is left behind them. -/
def segments (ends : List α → Bool) (stream : List α) : List (List α) × List α :=
  ((runTotal (segmentStep ends) [] stream).1.flatten, (runTotal (segmentStep ends) [] stream).2)

/-- Items with which no segment ends. -/
def Unended (ends : List α → Bool) (items : List α) : Prop := ∀ first, first <+: items →
    ends first = false

/-- A segment ends with its last item, and not before. -/
def IsSegment (ends : List α → Bool) (segment : List α) : Prop :=
  ends segment = true ∧ ∀ first, first <+: segment → first ≠ segment → ends first = false

/-- A stream is cut into segments and what is left. -/
structure CutInto (ends : List α → Bool) (stream : List α) (parts : List (List α))
    (rest : List α) : Prop where
  flatten : parts.flatten ++ rest = stream
  segment : ∀ part ∈ parts, IsSegment ends part
  unended : Unended ends rest

/-- One item more with which no segment ends. -/
theorem Unended.concat {ends : List α → Bool} {begun : List α} {item : α} (hbegun : Unended ends begun)
    (hitem : ends (begun ++ [item]) = false) : Unended ends (begun ++ [item]) := by
  intro first hfirst
  rcases List.prefix_concat_iff.mp hfirst with rfl | hfirst
  · exact hitem
  · exact hbegun first hfirst

/-- A segment whose last item is behind items with which none ends. -/
theorem Unended.isSegment {ends : List α → Bool} {begun : List α} {item : α}
    (hbegun : Unended ends begun)
    (hitem : ends (begun ++ [item]) = true) : IsSegment ends (begun ++ [item]) := by
  refine ⟨hitem, fun first hfirst hne => ?_⟩
  rcases List.prefix_concat_iff.mp hfirst with heq | hfirst
  · exact absurd heq hne
  · exact hbegun first hfirst

/-- A run cuts the items that have begun and the stream. -/
theorem runTotal_segmentStep {ends : List α → Bool} (hnil : ends [] = false) {begun : List α}
    (hbegun : Unended ends begun)
    (stream : List α) :
    CutInto ends (begun ++ stream) (runTotal (segmentStep ends) begun stream).1.flatten
      (runTotal (segmentStep ends) begun stream).2 := by
  induction stream generalizing begun with
  | nil => exact ⟨(List.append_nil begun).symm, fun part hpart => absurd hpart List.not_mem_nil, hbegun⟩
  | cons item stream ih =>
    cases hitem : ends (begun ++ [item]) with
    | true =>
      have hstep : segmentStep ends begun item = ([begun ++ [item]], []) := if_pos hitem
      have hempty : Unended ends [] := fun first hfirst => List.prefix_nil.mp hfirst ▸ hnil
      obtain ⟨hflatten, hsegment, hunended⟩ := ih hempty
      simp only [runTotal, hstep, List.flatten_cons, List.singleton_append]
      refine ⟨?_, ?_, hunended⟩
      · rw [List.flatten_cons, List.append_assoc, hflatten, List.nil_append, ← List.append_cons]
      · rintro part (_ | ⟨_, hpart⟩)
        · exact hbegun.isSegment hitem
        · exact hsegment part hpart
    | false =>
      have hstep : segmentStep ends begun item = ([], begun ++ [item]) :=
        if_neg (Bool.not_eq_true _ ▸ hitem)
      simp only [runTotal, hstep, List.flatten_cons, List.nil_append]
      rw [List.append_cons]
      exact ih (hbegun.concat hitem)

/-- The segments of a stream cut it. -/
theorem segments_cutInto {ends : List α → Bool} (hnil : ends [] = false) (stream : List α) :
    CutInto ends stream (segments ends stream).1 (segments ends stream).2 :=
  runTotal_segmentStep hnil (fun _ hfirst => List.prefix_nil.mp hfirst ▸ hnil) stream

/-- Two segments at the front of a stream are the same. -/
theorem IsSegment.eq {ends : List α → Bool} {stream first first' : List α}
    (h : IsSegment ends first) (h' : IsSegment ends first')
    (hfirst : first <+: stream) (hfirst' : first' <+: stream) : first = first' := by
  by_contra hne
  rcases List.prefix_or_prefix_of_prefix hfirst hfirst' with hprefix | hprefix
  · exact Bool.false_ne_true ((h'.2 first hprefix hne).symm.trans h.1)
  · exact Bool.false_ne_true ((h.2 first' hprefix (Ne.symm hne)).symm.trans h'.1)

/-- What begins with a segment is not unended. -/
theorem Unended.not_isSegment {ends : List α → Bool} {items segment : List α} (h : Unended ends items)
    (hsegment : IsSegment ends segment) : ¬ segment <+: items :=
  fun hprefix => Bool.false_ne_true ((h segment hprefix).symm.trans hsegment.1)

/-- A stream is cut in one way. -/
theorem CutInto.unique {ends : List α → Bool} {stream rest rest' : List α}
    {parts parts' : List (List α)}
    (h : CutInto ends stream parts rest) (h' : CutInto ends stream parts' rest') :
    parts = parts' ∧ rest = rest' := by
  induction parts generalizing stream parts' with
  | nil =>
    cases parts' with
    | nil => exact ⟨rfl, h.flatten.trans h'.flatten.symm⟩
    | cons part' parts' =>
      refine absurd ?_ (h.unended.not_isSegment (h'.segment part' List.mem_cons_self))
      refine ⟨parts'.flatten ++ rest', ?_⟩
      rw [← List.append_assoc, ← List.flatten_cons]
      exact h'.flatten.trans h.flatten.symm
  | cons part parts ih =>
    have hfirst : part <+: stream := by
      rw [← h.flatten, List.flatten_cons, List.append_assoc]
      exact List.prefix_append part _
    cases parts' with
    | nil =>
      refine absurd ?_ (h'.unended.not_isSegment (h.segment part List.mem_cons_self))
      rwa [← show rest' = stream from h'.flatten] at hfirst
    | cons part' parts' =>
      have hfirst' : part' <+: stream := by
        rw [← h'.flatten, List.flatten_cons, List.append_assoc]
        exact List.prefix_append part' _
      obtain rfl :=
        (h.segment part List.mem_cons_self).eq (h'.segment part' List.mem_cons_self) hfirst hfirst'
      have hsame : parts'.flatten ++ rest' = parts.flatten ++ rest := by
        have hboth := h'.flatten.trans h.flatten.symm
        rw [List.flatten_cons, List.flatten_cons, List.append_assoc, List.append_assoc] at hboth
        exact List.append_cancel_left hboth
      obtain ⟨rfl, rfl⟩ := ih ⟨rfl, fun p hp => h.segment p (List.mem_cons_of_mem part hp), h.unended⟩
        ⟨hsame, fun p hp => h'.segment p (List.mem_cons_of_mem part hp), h'.unended⟩
      exact ⟨rfl, rfl⟩

/-- A stream's segments are the only ones that cut it. -/
theorem cutInto_iff {ends : List α → Bool} (hnil : ends [] = false) {stream rest : List α}
    {parts : List (List α)} :
    CutInto ends stream parts rest ↔ segments ends stream = (parts, rest) := by
  constructor
  · intro h
    obtain ⟨hparts, hrest⟩ := (segments_cutInto hnil stream).unique h
    exact Prod.ext hparts hrest
  · intro h
    have hcut := segments_cutInto hnil stream
    rwa [h] at hcut

end DasEdge.Library
