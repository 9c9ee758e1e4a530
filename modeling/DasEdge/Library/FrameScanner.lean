import Mathlib.Data.List.Induction
import Mathlib.Tactic.Ring

/-!
# Scanning a stream for frames

A scanner that collects bytes in a buffer of fixed size. A frame starts with a header, which is one
half twice, and ends with a marker. While it looks for the header the scanner keeps its first half's
worth of bytes on a mismatch, and after the header it collects until the marker, starting over at
the beginning of the buffer when that is full. Here the state is the bytes themselves; the buffer
comes in later.
-/

namespace DasEdge.Library

variable {β : Type*} [DecidableEq β]

/-- The shape of frames, with the least place at which a frame ends and the size of the buffer. -/
structure FrameFormat (β : Type*) [DecidableEq β] where
  half : List β
  marker : List β
  least : ℕ
  size : ℕ
  half_ne : half ≠ []
  marker_ne : marker ≠ []
  apart : ∀ b ∈ marker, b ∉ half
  marker_le : marker.length ≤ least
  head_le : 2 * half.length ≤ least
  least_lt : least < size

/-- The bytes seen of a header that is looked for, or the bytes of the frame that was begun. -/
inductive Scan (β : Type*) where
  | head (seen : List β)
  | body (frame : List β)

namespace FrameFormat

variable (fmt : FrameFormat β)

/-- The bytes of a frame end it. -/
def IsEnd (frame : List β) : Prop := fmt.least ≤ frame.length % fmt.size ∧ fmt.marker <:+ frame

instance (frame : List β) : Decidable (fmt.IsEnd frame) := by unfold IsEnd; infer_instance

/-- One byte: the next state, and the frame that it ends. -/
def scanStep : Scan β → β → Scan β × Option (List β)
  | .head seen, b =>
    if (seen ++ [b]).length = 2 * fmt.half.length then
      if seen ++ [b] = fmt.half ++ fmt.half then (.body (seen ++ [b]), none)
      else (.head ((seen ++ [b]).take fmt.half.length), none)
    else (.head (seen ++ [b]), none)
  | .body frame, b => if fmt.IsEnd (frame ++ [b]) then (.head [], some (frame ++ [b]))
    else (.body (frame ++ [b]), none)

/-- A stream: the state behind it, and the frames that end in it. -/
def scan : Scan β → List β → Scan β × List (List β)
  | s, [] => (s, [])
  | s, b :: rest =>
    let r := fmt.scanStep s b
    let t := scan r.1 rest
    (t.1, r.2.toList ++ t.2)

/-- The place in the buffer at which the next byte is stored. -/
def place : Scan β → ℕ
  | .head seen => seen.length
  | .body frame => frame.length % fmt.size

/-- What a scanner that started idle has seen. -/
def Ok : Scan β → Prop
  | .head seen => seen.length < 2 * fmt.half.length
  | .body frame => 2 * fmt.half.length ≤ frame.length

variable {fmt}

/-- The header is not empty. -/
theorem half_pos (fmt : FrameFormat β) : 0 < fmt.half.length := List.length_pos_iff.mpr fmt.half_ne

/-- A stream is scanned part by part. -/
theorem scan_append (s : Scan β) (left right : List β) :
    fmt.scan s (left ++ right) =
      ((fmt.scan (fmt.scan s left).1 right).1,
      (fmt.scan s left).2 ++ (fmt.scan (fmt.scan s left).1 right).2) := by
  induction left generalizing s with
  | nil => rfl
  | cons b left ih => simp [scan, ih]

/-- Less than a header is collected. -/
theorem scanStep_short {seen : List β} {b : β} (h : (seen ++ [b]).length ≠ 2 * fmt.half.length) :
    fmt.scanStep (.head seen) b = (.head (seen ++ [b]), none) := if_neg h

/-- A header begins a frame. -/
theorem scanStep_lock {seen : List β} {b : β} (h : seen ++ [b] = fmt.half ++ fmt.half) :
    fmt.scanStep (.head seen) b = (.body (seen ++ [b]), none) := by
  have hlength := congrArg List.length h
  rw [List.length_append, List.length_append, ← Nat.two_mul, ← List.length_append] at hlength
  exact (if_pos hlength).trans (if_pos h)

/-- Of other bytes the first ones are kept. -/
theorem scanStep_miss {seen : List β} {b : β} (hfull : (seen ++ [b]).length = 2 * fmt.half.length)
    (h : seen ++ [b] ≠ fmt.half ++ fmt.half) :
    fmt.scanStep (.head seen) b = (.head ((seen ++ [b]).take fmt.half.length), none) :=
  (if_pos hfull).trans (if_neg h)

/-- The end of a frame. -/
theorem scanStep_end {frame : List β} {b : β} (h : fmt.IsEnd (frame ++ [b])) :
    fmt.scanStep (.body frame) b = (.head [], some (frame ++ [b])) := if_pos h

/-- A frame that goes on. -/
theorem scanStep_run {frame : List β} {b : β} (h : ¬ fmt.IsEnd (frame ++ [b])) :
    fmt.scanStep (.body frame) b = (.body (frame ++ [b]), none) := if_neg h

/-- A step keeps to what a scanner can have seen. -/
theorem scanStep_ok {s : Scan β} (h : fmt.Ok s) (b : β) : fmt.Ok (fmt.scanStep s b).1 := by
  have hpos := fmt.half_pos
  cases s with
  | head seen =>
    have hseen : seen.length < 2 * fmt.half.length := h
    rw [scanStep]
    split
    · split
      · next hfull _ => exact Nat.le_of_eq hfull.symm
      · change ((seen ++ [b]).take fmt.half.length).length < _
        rw [List.length_take]
        omega
    · next hfull =>
      change (seen ++ [b]).length < _
      rw [List.length_append, List.length_singleton] at hfull ⊢
      omega
  | body frame =>
    have hframe : 2 * fmt.half.length ≤ frame.length := h
    rw [scanStep]
    split
    · change 0 < _
      omega
    · change _ ≤ (frame ++ [b]).length
      rw [List.length_append]
      omega

/-- Fewer bytes than a header are just collected. -/
theorem scan_short {seen bytes : List β} (h : seen.length + bytes.length < 2 * fmt.half.length) :
    fmt.scan (.head seen) bytes = (.head (seen ++ bytes), []) := by
  induction bytes generalizing seen with
  | nil => simp [scan]
  | cons b rest ih =>
    rw [List.length_cons] at h
    have hshort : (seen ++ [b]).length ≠ 2 * fmt.half.length := by
      rw [List.length_append, List.length_singleton]
      omega
    have hrest := @ih (seen ++ [b]) (by rw [List.length_append, List.length_singleton]; omega)
    rw [scan, scanStep_short hshort, hrest]
    simp

/-- What was seen of a header counts like bytes that come to an idle scanner. -/
theorem scan_seen {seen : List β} (h : seen.length < 2 * fmt.half.length) (bytes : List β) :
    fmt.scan (.head seen) bytes = fmt.scan (.head []) (seen ++ bytes) := by
  rw [scan_append, @scan_short _ _ fmt [] seen (by simpa using h)]
  simp

/-- Behind the first half one block after the other is compared with the second. -/
theorem scan_block {seen block : List β} (hseen : seen.length = fmt.half.length)
    (hblock : block.length = fmt.half.length)
    (bytes : List β) :
    fmt.scan (.head seen) (block ++ bytes) =
      if seen = fmt.half ∧ block = fmt.half then fmt.scan (.body (fmt.half ++ fmt.half)) bytes
      else fmt.scan (.head seen) bytes := by
  have hpos := fmt.half_pos
  obtain ⟨front, last, rfl⟩ : ∃ front last, block = front ++ [last] := by
    refine ⟨block.dropLast, block.getLast ?_, (List.dropLast_concat_getLast _).symm⟩
    exact List.ne_nil_of_length_pos (by omega)
  rw [List.length_append, List.length_singleton] at hblock
  have hfront := @scan_short _ _ fmt seen front (by omega)
  have hfull : (seen ++ front ++ [last]).length = 2 * fmt.half.length := by
    rw [List.length_append, List.length_append, List.length_singleton]
    omega
  have hstep : fmt.scanStep (.head (seen ++ front)) last =
      if seen = fmt.half ∧ front ++ [last] = fmt.half then (.body (fmt.half ++ fmt.half), none)
      else (.head seen, none) := by
    have htake : (seen ++ front ++ [last]).take fmt.half.length = seen := by
      rw [List.append_assoc, ← hseen, List.take_left]
    have heq : seen ++ front ++ [last] = fmt.half ++ fmt.half ↔ seen = fmt.half ∧
        front ++ [last] = fmt.half := by
      rw [List.append_assoc]
      exact ⟨fun h => List.append_inj h hseen, fun h => by rw [h.1, h.2]⟩
    by_cases h : seen = fmt.half ∧ front ++ [last] = fmt.half
    · rw [scanStep_lock (heq.mpr h), if_pos h, heq.mpr h]
    · rw [scanStep_miss hfull (mt heq.mp h), if_neg h, htake]
  rw [List.append_assoc, scan_append, hfront, List.singleton_append, scan, hstep]
  split
  · simp
  · simp

/-- Blocks that a header's second half is looked for in, none of them being that half. -/
def Misses (fmt : FrameFormat β) (blocks : List (List β)) : Prop :=
  ∀ block ∈ blocks, block.length = fmt.half.length ∧ block ≠ fmt.half

/-- A first half, blocks that miss, and a second half begin a frame. -/
theorem scan_lock {blocks : List (List β)} (h : fmt.Misses blocks) (bytes : List β) :
    fmt.scan (.head []) (fmt.half ++ (blocks.flatten ++ (fmt.half ++ bytes))) =
      fmt.scan (.body (fmt.half ++ fmt.half)) bytes := by
  have hpos := fmt.half_pos
  rw [← scan_seen (by omega)]
  induction blocks with
  | nil => rw [List.flatten_nil, List.nil_append, scan_block rfl rfl, if_pos ⟨rfl, rfl⟩]
  | cons block blocks ih =>
    have hblock := h block List.mem_cons_self
    rw [List.flatten_cons, List.append_assoc, scan_block rfl hblock.1,
      if_neg (fun heq => hblock.2 heq.2)]
    exact ih fun b hb => h b (List.mem_cons_of_mem _ hb)

/-- A header begins a frame. -/
theorem scan_header (bytes : List β) :
    fmt.scan (.head []) (fmt.half ++ fmt.half ++ bytes) =
      fmt.scan (.body (fmt.half ++ fmt.half)) bytes := by
  have hlock := @scan_lock _ _ fmt [] (fun _ hb => absurd hb List.not_mem_nil) bytes
  rwa [List.flatten_nil, List.nil_append, ← List.append_assoc] at hlock

/-- Behind the first half's worth of bytes the scanner keeps looking, or it finds the second half. -/
theorem scan_seek {seen : List β} (hseen : seen.length = fmt.half.length) (bytes : List β) :
    (∃ seen', fmt.scan (.head seen) bytes = (.head seen', []) ∧ seen' ≠ []) ∨
      seen = fmt.half ∧ ∃ blocks rest, fmt.Misses blocks ∧
        bytes = blocks.flatten ++ (fmt.half ++ rest) := by
  have hpos := fmt.half_pos
  induction hn : bytes.length using Nat.strongRecOn generalizing bytes with
  | _ n ih =>
    rcases Nat.lt_or_ge bytes.length fmt.half.length with hshort | hlong
    · left
      refine ⟨seen ++ bytes, scan_short (by omega), List.append_ne_nil_of_left_ne_nil ?_ _⟩
      exact List.ne_nil_of_length_pos (by omega)
    · obtain ⟨block, rest, rfl, hblock⟩ : ∃ block rest, bytes = block ++ rest ∧
          block.length = fmt.half.length :=
        ⟨bytes.take fmt.half.length, bytes.drop fmt.half.length,
          (List.take_append_drop _ _).symm, by simp [hlong]⟩
      rw [scan_block hseen hblock]
      by_cases hfound : seen = fmt.half ∧ block = fmt.half
      · right
        exact ⟨hfound.1, [], rest, fun _ h => absurd h List.not_mem_nil, by rw [hfound.2]; rfl⟩
      · rw [if_neg hfound]
        rw [List.length_append] at hn
        rcases ih rest.length (by omega) rest rfl with hlooks | ⟨hhalf, blocks, rest', hmisses, rfl⟩
        · exact .inl hlooks
        · right
          refine ⟨hhalf, block :: blocks, rest', ?_, by simp⟩
          intro b hb
          rcases List.mem_cons.mp hb with rfl | hb
          · exact ⟨hblock, fun heq => hfound ⟨hhalf, heq⟩⟩
          · exact hmisses b hb

/-- An idle scanner keeps looking, or it finds the two halves of a header. -/
theorem scan_idle (bytes : List β) :
    (∃ seen, fmt.scan (.head []) bytes = (.head seen, []) ∧ (bytes ≠ [] → seen ≠ [])) ∨
      ∃ blocks rest, fmt.Misses blocks ∧
        bytes = fmt.half ++ (blocks.flatten ++ (fmt.half ++ rest)) := by
  rcases Nat.lt_or_ge bytes.length fmt.half.length with hshort | hlong
  · exact .inl ⟨bytes, scan_short (by rw [List.length_nil]; omega), id⟩
  · obtain ⟨first, rest, rfl, hfirst⟩ : ∃ first rest, bytes = first ++ rest ∧
        first.length = fmt.half.length :=
      ⟨bytes.take fmt.half.length, bytes.drop fmt.half.length,
        (List.take_append_drop _ _).symm, by simp [hlong]⟩
    have hpos := fmt.half_pos
    rw [← scan_seen (by omega)]
    rcases scan_seek hfirst rest with ⟨seen, hseen, hne⟩ | ⟨rfl, blocks, rest', hmisses, rfl⟩
    · exact .inl ⟨seen, hseen, fun _ => hne⟩
    · exact .inr ⟨blocks, rest', hmisses, rfl⟩

/-- No part of the bytes ends the frame that they continue. -/
def Runs (fmt : FrameFormat β) (frame bytes : List β) : Prop :=
  ∀ part, part <+: bytes → part ≠ [] → ¬ fmt.IsEnd (frame ++ part)

/-- Bytes that do not end a frame are collected. -/
theorem scan_runs {frame bytes : List β} (h : fmt.Runs frame bytes) :
    fmt.scan (.body frame) bytes = (.body (frame ++ bytes), []) := by
  induction bytes generalizing frame with
  | nil => simp [scan]
  | cons b rest ih =>
    have hb : ¬ fmt.IsEnd (frame ++ [b]) := h [b] (by simp) (by simp)
    have hrest := @ih (frame ++ [b]) fun part hpart _ => by
      have hlater := h (b :: part) (List.cons_prefix_cons.mpr ⟨rfl, hpart⟩) (by simp)
      rwa [List.append_assoc, List.singleton_append]
    rw [scan, scanStep_run hb, hrest]
    simp

/-- The first bytes that end a frame. -/
def EndsFirst (fmt : FrameFormat β) (frame bytes : List β) : Prop :=
  bytes ≠ [] ∧ fmt.IsEnd (frame ++ bytes) ∧ fmt.Runs frame bytes.dropLast

/-- Bytes that end a frame leave the scanner idle. -/
theorem scan_ends {frame bytes : List β} (h : fmt.EndsFirst frame bytes) :
    fmt.scan (.body frame) bytes = (.head [], [frame ++ bytes]) := by
  obtain ⟨hne, hend, hruns⟩ := h
  have hsplit := List.dropLast_concat_getLast hne
  have hlast : fmt.IsEnd (frame ++ bytes.dropLast ++ [bytes.getLast hne]) := by
    rw [List.append_assoc, hsplit]
    exact hend
  have hbody : fmt.scan (.body frame) (bytes.dropLast ++ [bytes.getLast hne]) =
      (.head [], [frame ++ bytes]) := by
    rw [scan_append, scan_runs hruns, scan, scanStep_end hlast, List.append_assoc, hsplit]
    rfl
  rwa [hsplit] at hbody

/-- Bytes behind a header do not end the frame, or some first part of them does. -/
theorem runs_or_ends (frame bytes : List β) :
    fmt.Runs frame bytes ∨ ∃ part rest, bytes = part ++ rest ∧ fmt.EndsFirst frame part := by
  induction bytes using List.reverseRecOn with
  | nil => exact .inl fun part hpart hne => absurd (List.prefix_nil.mp hpart) hne
  | append_singleton bytes b ih =>
    rcases ih with hruns | ⟨part, rest, rfl, hends⟩
    · by_cases hend : fmt.IsEnd (frame ++ (bytes ++ [b]))
      · exact .inr ⟨bytes ++ [b], [], by simp, by simp, hend, by rwa [List.dropLast_concat]⟩
      · left
        intro part hpart hne
        rcases List.prefix_concat_iff.mp hpart with rfl | hpart
        · exact hend
        · exact hruns part hpart hne
    · exact .inr ⟨part, rest ++ [b], by simp, hends⟩

/-- A whole frame that fits the buffer: a header, and a marker at the end but not before. -/
structure IsFrame (fmt : FrameFormat β) (frame : List β) : Prop where
  header : fmt.half ++ fmt.half <+: frame
  ends : fmt.marker <:+ frame
  fits : frame.length < fmt.size
  once : ∀ part, part <+: frame → fmt.marker <:+ part → part = frame

/-- A marker lies behind the last byte of a header's half. -/
theorem marker_behind {left right : List β} {b : β} (hb : b ∈ fmt.half)
    (h : fmt.marker <:+ left ++ (b :: right)) :
    fmt.marker <:+ right := by
  rcases Nat.lt_or_ge right.length fmt.marker.length with hshort | hlong
  · have hmem : b ∈ fmt.marker := by
      have hsuffix : b :: right <:+ fmt.marker :=
        List.suffix_of_suffix_length_le (List.suffix_append left _) h (by rw [List.length_cons]; omega)
      exact hsuffix.subset List.mem_cons_self
    exact absurd hb (fmt.apart b hmem)
  · have hsuffix : right <:+ left ++ (b :: right) :=
      (List.suffix_cons b right).trans (List.suffix_append left _)
    exact List.suffix_of_suffix_length_le h hsuffix hlong

/-- A frame's first byte belongs to the half of the header. -/
theorem IsFrame.cons {frame : List β} (h : fmt.IsFrame frame) : ∃ b rest, frame = b :: rest ∧
    b ∈ fmt.half := by
  obtain ⟨rest, rfl⟩ := h.header
  obtain ⟨b, half, hhalf⟩ : ∃ b half, fmt.half = b :: half := List.exists_cons_of_ne_nil fmt.half_ne
  exact ⟨b, half ++ fmt.half ++ rest, by rw [hhalf]; simp, by rw [hhalf]; exact List.mem_cons_self⟩

/-- A marker that is complete behind a nonempty part of a frame completes the frame. -/
theorem IsFrame.complete {frame left part : List β} (h : fmt.IsFrame frame) (hpart : part <+: frame)
    (hne : part ≠ [])
    (hmarker : fmt.marker <:+ left ++ part) : part = frame := by
  obtain ⟨b, rest, hframe, hb⟩ := h.cons
  obtain ⟨c, part', rfl⟩ := List.exists_cons_of_ne_nil hne
  obtain rfl : c = b := by
    rw [hframe] at hpart
    exact (List.cons_prefix_cons.mp hpart).1
  exact h.once _ hpart ((marker_behind hb hmarker).trans (List.suffix_cons c part'))

/-- A frame that comes to a scanner in the middle of another one is collected up to its last byte. -/
theorem IsFrame.endsFirst {frame left : List β} (h : fmt.IsFrame frame)
    (hend : fmt.IsEnd (left ++ frame)) :
    fmt.EndsFirst left frame := by
  obtain ⟨b, rest, hframe, -⟩ := h.cons
  have hne : frame ≠ [] := by
    rw [hframe]
    exact List.cons_ne_nil _ _
  refine ⟨hne, hend, fun part hpart hpartNe hpartEnd => ?_⟩
  have hwhole := h.complete (hpart.trans (List.dropLast_prefix frame)) hpartNe hpartEnd.2
  have hlength := hpart.length_le
  rw [hwhole, List.length_dropLast] at hlength
  have := List.length_pos_iff.mpr hne
  omega

/-- It does not end when it leaves the scanner too near to the beginning of the buffer. -/
theorem IsFrame.runs {frame left : List β} (h : fmt.IsFrame frame)
    (hend : ¬ fmt.IsEnd (left ++ frame)) :
    fmt.Runs left frame := by
  intro part hpart hne hpartEnd
  rw [h.complete hpart hne hpartEnd.2] at hpartEnd
  exact hend hpartEnd

/-- A marker lies behind the header. -/
theorem marker_behind_header {part : List β} (h : fmt.marker <:+ fmt.half ++ fmt.half ++ part) :
    fmt.marker <:+ part := by
  obtain ⟨half, last, hhalf⟩ : ∃ half last, fmt.half = half ++ [last] :=
    ⟨_, _, (List.dropLast_concat_getLast fmt.half_ne).symm⟩
  have hlast : last ∈ fmt.half := by
    rw [hhalf]
    exact List.mem_append_right _ List.mem_cons_self
  have hsplit : fmt.half ++ fmt.half ++ part = fmt.half ++ half ++ (last :: part) := by
    rw [hhalf]
    simp
  rw [hsplit] at h
  exact marker_behind hlast h

/-- The bytes of a frame behind some of its first ones end it as soon as they end what they are put
behind. -/
theorem IsFrame.endsFirst_tail {pre rest : List β} (h : fmt.IsFrame (pre ++ rest))
    (hend : fmt.IsEnd (fmt.half ++ fmt.half ++ rest)) : fmt.EndsFirst (fmt.half ++ fmt.half) rest := by
  have hmarker := marker_behind_header hend.2
  have hne : rest ≠ [] := by
    rintro rfl
    exact fmt.marker_ne (List.suffix_nil.mp hmarker)
  refine ⟨hne, hend, fun part hpart _ hpartEnd => ?_⟩
  have hprefix : pre ++ part <+: pre ++ rest :=
    (List.prefix_append_right_inj _).mpr (hpart.trans (List.dropLast_prefix rest))
  have hwhole :=
    h.once _ hprefix ((marker_behind_header hpartEnd.2).trans (List.suffix_append pre part))
  have hlength := hpart.length_le
  rw [List.append_cancel_left hwhole, List.length_dropLast] at hlength
  have := List.length_pos_iff.mpr hne
  omega

/-- They do not end it when they leave the scanner too near to the beginning of the buffer. -/
theorem IsFrame.runs_tail {pre rest : List β} (h : fmt.IsFrame (pre ++ rest))
    (hend : ¬ fmt.IsEnd (fmt.half ++ fmt.half ++ rest)) : fmt.Runs (fmt.half ++ fmt.half) rest := by
  intro part hpart _ hpartEnd
  have hwhole := h.once _ ((List.prefix_append_right_inj _).mpr hpart)
    ((marker_behind_header hpartEnd.2).trans (List.suffix_append pre part))
  rw [List.append_cancel_left hwhole] at hpartEnd
  exact hend hpartEnd

/-- At the beginning of the buffer, a frame counts with its own length. -/
theorem place_zero_length {left frame : List β} (hleft : left.length % fmt.size = 0)
    (hfits : frame.length < fmt.size) :
    (left ++ frame).length % fmt.size = frame.length := by
  rw [List.length_append, Nat.add_mod, hleft, Nat.zero_add, Nat.mod_mod, Nat.mod_eq_of_lt hfits]

/-- A frame that comes to a scanner that stores at the beginning of its buffer ends as it came, when
it is long enough, and does not end otherwise. -/
theorem scan_frame_whole {frame : List β} (h : fmt.IsFrame frame) {s : Scan β} (hs : fmt.place s = 0) :
    (fmt.least ≤ frame.length → ∃ left, fmt.scan s frame = (.head [], [left ++ frame]) ∧
      (left ++ frame).length % fmt.size = frame.length) ∧
    (frame.length < fmt.least → (fmt.scan s frame).2 = []) := by
  cases s with
  | head seen =>
    have hseen : seen = [] := List.eq_nil_of_length_eq_zero hs
    obtain ⟨rest, rfl⟩ := h.header
    have hmod := Nat.mod_eq_of_lt h.fits
    rw [hseen, scan_header]
    constructor
    · intro hleast
      refine ⟨[], ?_, by rw [List.nil_append, hmod]⟩
      rw [scan_ends (h.endsFirst_tail ⟨hmod.symm ▸ hleast, h.ends⟩)]
      rfl
    · intro hshort
      have hend : ¬ fmt.IsEnd (fmt.half ++ fmt.half ++ rest) :=
        fun hend => absurd hend.1 (by rw [hmod]; omega)
      rw [scan_runs (h.runs_tail hend)]
  | body left =>
    have hlength := place_zero_length hs h.fits
    constructor
    · intro hleast
      have hend : fmt.IsEnd (left ++ frame) :=
        ⟨by rw [hlength]; exact hleast, h.ends.trans (List.suffix_append left frame)⟩
      exact ⟨left, scan_ends (h.endsFirst hend), hlength⟩
    · intro hshort
      have hend : ¬ fmt.IsEnd (left ++ frame) := fun hend => absurd hend.1 (by rw [hlength]; omega)
      rw [scan_runs (h.runs hend)]

/-- What a scanner in the middle of a frame makes of another frame: at most one frame, with the two
together. -/
theorem scan_frame_body {frame : List β} (h : fmt.IsFrame frame) (left : List β) :
    (fmt.scan (.body left) frame).2 = [] ∨ (fmt.scan (.body left) frame).2 = [left ++ frame] := by
  by_cases hend : fmt.IsEnd (left ++ frame)
  · right
    rw [scan_ends (h.endsFirst hend)]
  · left
    rw [scan_runs (h.runs hend)]

/-- A sum of which one part is no revolution and the other less than one is not the other. -/
theorem mod_add_ne {size left right : ℕ} (hleft : left % size ≠ 0) (hright : right < size) :
    (left + right) % size ≠ right := by
  intro heq
  rw [Nat.add_mod, Nat.mod_eq_of_lt hright] at heq
  have hlt := Nat.mod_lt left (by omega : size > 0)
  rcases Nat.lt_or_ge (left % size + right) size with hsmall | hlarge
  · rw [Nat.mod_eq_of_lt hsmall] at heq
    omega
  · rw [Nat.mod_eq_sub_mod hlarge, Nat.mod_eq_of_lt (by omega)] at heq
    omega

/-- The bytes of blocks that miss. -/
theorem Misses.length_flatten {blocks : List (List β)} (h : fmt.Misses blocks) :
    blocks.flatten.length = blocks.length * fmt.half.length := by
  induction blocks with
  | nil => simp
  | cons block blocks ih =>
    have hblock := (h block List.mem_cons_self).1
    have hrest := ih fun b hb => h b (List.mem_cons_of_mem _ hb)
    rw [List.flatten_cons, List.length_append, hblock, hrest, List.length_cons]
    ring

/-- A header that is found behind other bytes is not found at the place of the frame's own one. -/
theorem header_apart {seen pre rest : List β} {blocks : List (List β)}
    (hheader : fmt.half ++ fmt.half <+: pre ++ rest)
    (hfits : (pre ++ rest).length < fmt.size) (hshort : seen.length < 2 * fmt.half.length)
    (hne : seen.length ≠ 0)
    (hmisses : fmt.Misses blocks)
    (hfound : seen ++ (pre ++ rest) = fmt.half ++ (blocks.flatten ++ (fmt.half ++ rest))) :
    (fmt.half ++ fmt.half ++ rest).length % fmt.size ≠ (pre ++ rest).length := by
  have hsize := Nat.lt_of_le_of_lt fmt.head_le fmt.least_lt
  have hlength := congrArg List.length hfound
  simp only [List.length_append, hmisses.length_flatten] at hlength hfits ⊢
  intro heq
  have hsame : seen.length = blocks.length * fmt.half.length := by
    rcases Nat.lt_or_ge (fmt.half.length + fmt.half.length + rest.length) fmt.size with hsmall | hlarge
    · rw [Nat.mod_eq_of_lt hsmall] at heq
      omega
    · rw [Nat.mod_eq_sub_mod hlarge, Nat.mod_eq_of_lt (by omega)] at heq
      omega
  match blocks, hmisses, hfound, hsame with
  | [], _, _, hsame => simp at hsame; exact hne (by rw [hsame]; rfl)
  | [block], hmisses, hfound, hsame =>
    have hblock := hmisses block List.mem_cons_self
    rw [List.length_singleton, Nat.one_mul] at hsame
    obtain ⟨-, hframe⟩ := List.append_inj hfound hsame
    obtain ⟨tail, htail⟩ := hheader
    rw [← htail, List.flatten_cons, List.flatten_nil, List.append_nil, List.append_assoc] at hframe
    exact hblock.2 (List.append_inj hframe hblock.1.symm).1.symm
  | _ :: _ :: blocks, _, _, hsame =>
    rw [List.length_cons, List.length_cons] at hsame
    have : (blocks.length + 1 + 1) * fmt.half.length = blocks.length * fmt.half.length + 2 *
      fmt.half.length := by ring
    omega

/-- A frame that comes to a scanner that stores elsewhere does not end where it would have ended
alone. -/
theorem scan_frame_apart {frame : List β} (h : fmt.IsFrame frame) {s : Scan β} (hok : fmt.Ok s)
    (hs : fmt.place s ≠ 0) :
    (fmt.scan s frame).2 = [] ∨
      ∃ other, (fmt.scan s frame).2 = [other] ∧ other.length % fmt.size ≠ frame.length := by
  cases s with
  | head seen =>
    have hseen : seen.length < 2 * fmt.half.length := hok
    rw [scan_seen hseen]
    rcases @scan_idle _ _ fmt (seen ++ frame) with ⟨seen', hlooks, -⟩ | ⟨blocks, rest, hmisses, hfound⟩
    · rw [hlooks]
      exact .inl rfl
    · have htail : rest <:+ frame := by
        have hlength := congrArg List.length hfound
        simp only [List.length_append] at hlength
        have hsuffix : rest <:+ seen ++ frame :=
          ⟨fmt.half ++ (blocks.flatten ++ fmt.half), by rw [hfound]; simp⟩
        exact List.suffix_of_suffix_length_le hsuffix (List.suffix_append seen frame) (by omega)
      obtain ⟨pre, rfl⟩ := htail
      rw [hfound, scan_lock hmisses]
      by_cases hend : fmt.IsEnd (fmt.half ++ fmt.half ++ rest)
      · exact .inr ⟨_, by rw [scan_ends (h.endsFirst_tail hend)],
          header_apart h.header h.fits hseen hs hmisses hfound⟩
      · rw [scan_runs (h.runs_tail hend)]
        exact .inl rfl
  | body left =>
    rcases scan_frame_body h left with hnone | hone
    · exact .inl hnone
    · refine .inr ⟨_, hone, ?_⟩
      rw [List.length_append]
      exact mod_add_ne hs h.fits

/-! ### The last byte of a frame -/

/-- The bytes that a state holds. -/
def held : Scan β → ℕ
  | .head seen => seen.length
  | .body frame => frame.length

/-- A byte adds at most itself. -/
theorem held_scanStep_le (s : Scan β) (b : β) : held (fmt.scanStep s b).1 ≤ held s + 1 := by
  cases s with
  | head seen =>
    rw [scanStep]
    split
    · split
      · simp [held]
      · simp [held]
    · simp [held]
  | body frame =>
    rw [scanStep]
    split
    · simp [held]
    · simp [held]

/-- Bytes add at most themselves. -/
theorem held_scan_le (s : Scan β) (bytes : List β) :
    held (fmt.scan s bytes).1 ≤ held s + bytes.length := by
  induction bytes generalizing s with
  | nil => exact Nat.le_refl _
  | cons b rest ih =>
    have hrest := ih (fmt.scanStep s b).1
    have hstep := @held_scanStep_le _ _ fmt s b
    change held (fmt.scan (fmt.scanStep s b).1 rest).1 ≤ _
    rw [List.length_cons]
    omega

/-- Only a marker at its end ends a frame that is stored from the beginning of the buffer on. -/
def NoEarlyEnd (fmt : FrameFormat β) (frame : List β) : Prop :=
  ∀ part, part <+: frame → fmt.least ≤ part.length → fmt.marker <:+ part → part = frame

/-- A byte ends a frame only when one was begun. -/
theorem scanStep_some {s : Scan β} {b : β} {other : List β} (h : (fmt.scanStep s b).2 = some other) :
    ∃ frame, s = .body frame ∧ other = frame ++ [b] ∧ fmt.IsEnd (frame ++ [b]) := by
  cases s with
  | head seen =>
    rw [scanStep] at h
    split at h
    · split at h
      · cases h
      · cases h
    · cases h
  | body frame =>
    by_cases hend : fmt.IsEnd (frame ++ [b])
    · rw [scanStep_end hend] at h
      exact ⟨frame, rfl, (Option.some.inj h).symm, hend⟩
    · rw [scanStep_run hend] at h
      cases h

/-- A frame that is begun by the last part of some bytes has at most their length. -/
theorem length_le_of_idle {bytes other : List β} {b : β}
    (h : (fmt.scanStep (fmt.scan (.head []) bytes).1 b).2 = some other) :
    other.length ≤ bytes.length + 1 := by
  obtain ⟨frame, hbody, rfl, -⟩ := scanStep_some h
  have hheld := @held_scan_le _ _ fmt (.head []) bytes
  rw [hbody] at hheld
  have hheld : frame.length ≤ ([] : List β).length + bytes.length := hheld
  rw [List.length_nil, Nat.zero_add] at hheld
  rw [List.length_append, List.length_singleton]
  omega

/-- A frame that was begun at the beginning of the buffer has no early end as long as it goes on. -/
theorem Runs.noEarlyEnd {left init : List β} {last : β} (h : fmt.Runs left init)
    (hleft : left.length % fmt.size = 0)
    (hfits : (init ++ [last]).length < fmt.size) : fmt.NoEarlyEnd (init ++ [last]) := by
  intro part hpart hleast hmarker
  rcases List.prefix_concat_iff.mp hpart with hwhole | hpart
  · exact hwhole
  · have hne : part ≠ [] := by
      rintro rfl
      exact fmt.marker_ne (List.suffix_nil.mp hmarker)
    have hshort := hpart.length_le
    rw [List.length_append, List.length_singleton] at hfits
    refine absurd ⟨?_, hmarker.trans (List.suffix_append left part)⟩ (h part hpart hne)
    rw [place_zero_length hleft (by omega)]
    exact hleast

/-- Without an early end it goes on. -/
theorem NoEarlyEnd.runs {left init : List β} {last : β} (h : fmt.NoEarlyEnd (init ++ [last]))
    (hleft : left.length % fmt.size = 0) (hfits : (init ++ [last]).length < fmt.size) :
    fmt.Runs left init := by
  intro part hpart _ hend
  have hshort := hpart.length_le
  rw [List.length_append, List.length_singleton] at hfits
  have hleast := hend.1
  rw [place_zero_length hleft (by omega)] at hleast
  have hmarker : fmt.marker <:+ part :=
    List.suffix_of_suffix_length_le hend.2 (List.suffix_append left part) (fmt.marker_le.trans hleast)
  have hwhole :=
    congrArg List.length (h part (hpart.trans (List.prefix_append init [last])) hleast hmarker)
  rw [List.length_append, List.length_singleton] at hwhole
  omega

/-- What goes on behind some bytes goes on behind more of them. -/
theorem Runs.behind {left mid rest : List β} (h : fmt.Runs left (mid ++ rest)) :
    fmt.Runs (left ++ mid) rest := by
  intro part hpart hne
  rw [List.append_assoc]
  exact h (mid ++ part) ((List.prefix_append_right_inj mid).mpr hpart)
    (List.append_ne_nil_of_right_ne_nil mid hne)

/-- A marker is not the end of a header, so a part that has one goes on behind the header. -/
theorem header_part {part rest : List β} (hpart : part <+: fmt.half ++ fmt.half ++ rest)
    (hleast : fmt.least ≤ part.length)
    (hmarker : fmt.marker <:+ part) : ∃ tail, part = fmt.half ++ fmt.half ++ tail ∧ tail <+: rest ∧
    tail ≠ [] := by
  have hhead := fmt.head_le
  have hprefix : fmt.half ++ fmt.half <+: part := by
    refine List.prefix_of_prefix_length_le (List.prefix_append _ rest) hpart ?_
    rw [List.length_append]
    omega
  obtain ⟨tail, rfl⟩ := hprefix
  refine ⟨tail, rfl, (List.prefix_append_right_inj _).mp hpart, ?_⟩
  rintro rfl
  exact fmt.marker_ne (List.suffix_nil.mp (marker_behind_header hmarker))

/-- When a frame ended before, what ends later is shorter than all the bytes. -/
theorem ended_shorter {s : Scan β} {part rest other : List β} {ended : List (List β)} {b : β}
    (hpart : fmt.scan s part = (.head [], ended))
    (h : (fmt.scanStep (fmt.scan s (part ++ rest)).1 b).2 = some other) :
    other.length % fmt.size ≤ rest.length + 1 := by
  rw [scan_append, hpart] at h
  exact (Nat.mod_le _ _).trans (length_le_of_idle h)

/-- A frame that ends in a marker goes on behind its header before its last byte. -/
theorem header_init {init : List β} {last : β} (hheader : fmt.half ++ fmt.half <+: init ++ [last])
    (hmarker : fmt.marker <:+ init ++ [last]) : ∃ rest, init = fmt.half ++ fmt.half ++ rest := by
  rcases List.prefix_concat_iff.mp hheader with hwhole | ⟨rest, hrest⟩
  · rw [← hwhole, ← List.append_nil (fmt.half ++ fmt.half)] at hmarker
    exact absurd (List.suffix_nil.mp (marker_behind_header hmarker)) fmt.marker_ne
  · exact ⟨rest, hrest.symm⟩

/-- The last byte of a long enough frame that was stored from the beginning of the buffer on ends
it, when it has no early end. -/
theorem scan_last {init : List β} {last : β} (hheader : fmt.half ++ fmt.half <+: init ++ [last])
    (hmarker : fmt.marker <:+ init ++ [last]) (hfits : (init ++ [last]).length < fmt.size) {s : Scan β}
    (hplace : fmt.place s = 0) (hearly : fmt.NoEarlyEnd (init ++ [last]))
    (hleast : fmt.least ≤ (init ++ [last]).length) :
    ∃ left, (fmt.scanStep (fmt.scan s init).1 last).2 = some (left ++ (init ++ [last])) ∧
      (left ++ (init ++ [last])).length % fmt.size = (init ++ [last]).length := by
  obtain ⟨rest, rfl⟩ := header_init hheader hmarker
  cases s with
  | head seen =>
    obtain rfl : seen = [] := List.eq_nil_of_length_eq_zero hplace
    have hruns : fmt.Runs [] (fmt.half ++ fmt.half ++ rest) := hearly.runs (Nat.zero_mod _) hfits
    have hmod := Nat.mod_eq_of_lt hfits
    have hend : fmt.IsEnd (fmt.half ++ fmt.half ++ rest ++ [last]) := ⟨hmod.symm ▸ hleast, hmarker⟩
    have hbehind : fmt.Runs (fmt.half ++ fmt.half) rest := hruns.behind
    rw [scan_header, scan_runs hbehind, scanStep_end hend]
    exact ⟨[], rfl, hmod⟩
  | body left =>
    have hmod := place_zero_length hplace hfits
    have hend : fmt.IsEnd (left ++ (fmt.half ++ fmt.half ++ rest) ++ [last]) := by
      rw [List.append_assoc]
      exact ⟨hmod.symm ▸ hleast, hmarker.trans (List.suffix_append left _)⟩
    rw [scan_runs (hearly.runs hplace hfits), scanStep_end hend, List.append_assoc]
    exact ⟨left, rfl, hmod⟩

/-- A frame that comes to an idle scanner and goes on to its last byte has no early end. -/
theorem noEarlyEnd_of_idle {rest other : List β} {last : β}
    (hfits : (fmt.half ++ fmt.half ++ rest ++ [last]).length < fmt.size)
    (hother : (fmt.scanStep (fmt.scan (.head []) (fmt.half ++ fmt.half ++ rest)).1 last).2 = some other)
    (hmod : other.length % fmt.size = (fmt.half ++ fmt.half ++ rest ++ [last]).length) :
    fmt.NoEarlyEnd (fmt.half ++ fmt.half ++ rest ++ [last]) := by
  intro part hpart hleast hmarker
  rw [scan_header] at hother
  rcases @runs_or_ends _ _ fmt (fmt.half ++ fmt.half) rest with hruns | ⟨body, rest', rfl, hends⟩
  · rcases List.prefix_concat_iff.mp hpart with hwhole | hpart
    · exact hwhole
    · obtain ⟨tail, rfl, htail, hne⟩ := header_part hpart hleast hmarker
      have hshort := hpart.length_le
      rw [List.length_append, List.length_singleton] at hfits
      refine absurd ⟨?_, hmarker⟩ (hruns tail htail hne)
      rwa [Nat.mod_eq_of_lt (by omega)]
  · have hshorter := ended_shorter (scan_ends hends) hother
    have hhalf := fmt.half_pos
    simp only [List.length_append, List.length_singleton] at hmod hshorter
    omega

/-- A frame that comes to a scanner that has seen other bytes of a header ends elsewhere. -/
theorem scan_last_apart {seen init other : List β} {last : β}
    (hheader : fmt.half ++ fmt.half <+: init ++ [last])
    (hfits : (init ++ [last]).length < fmt.size) (hfew : seen.length < 2 * fmt.half.length)
    (hseen : seen ≠ [])
    (hother : (fmt.scanStep (fmt.scan (.head seen) init).1 last).2 = some other) :
    other.length % fmt.size ≠ (init ++ [last]).length := by
  intro hmod
  rw [scan_seen hfew] at hother
  rcases @scan_idle _ _ fmt (seen ++ init) with ⟨seen', hlooks, -⟩ | ⟨blocks, rest, hmisses, hfound⟩
  · rw [hlooks] at hother
    obtain ⟨frame, hbody, -⟩ := scanStep_some hother
    cases hbody
  · obtain ⟨pre, rfl⟩ : rest <:+ init := by
      have hsum := congrArg List.length hfound
      simp only [List.length_append] at hsum
      have hsuffix : rest <:+ seen ++ init :=
        ⟨fmt.half ++ (blocks.flatten ++ fmt.half), by rw [hfound]; simp⟩
      exact List.suffix_of_suffix_length_le hsuffix (List.suffix_append seen init) (by omega)
    rw [hfound, scan_lock hmisses] at hother
    rcases @runs_or_ends _ _ fmt (fmt.half ++ fmt.half) rest with hruns | ⟨body, rest', rfl, hends⟩
    · rw [scan_runs hruns] at hother
      obtain ⟨frame, hbody, rfl, -⟩ := scanStep_some hother
      obtain rfl := Scan.body.inj hbody
      rw [List.append_assoc] at hheader hfits hmod
      rw [List.append_assoc pre] at hmod
      refine header_apart hheader hfits hfew (mt List.eq_nil_of_length_eq_zero hseen) hmisses ?_ hmod
      rw [← List.append_assoc pre, ← List.append_assoc seen, hfound]
      simp
    · have hshorter := ended_shorter (scan_ends hends) hother
      have hbody := List.length_pos_iff.mpr hends.1
      simp only [List.length_append, List.length_singleton] at hmod
      omega

/-- A frame that comes to a scanner in the middle of another one was stored from the beginning of
the buffer on, and has no early end. -/
theorem noEarlyEnd_of_body {left init other : List β} {last : β}
    (hfits : (init ++ [last]).length < fmt.size)
    (hother : (fmt.scanStep (fmt.scan (.body left) init).1 last).2 = some other)
    (hmod : other.length % fmt.size = (init ++ [last]).length) :
    left.length % fmt.size = 0 ∧ fmt.NoEarlyEnd (init ++ [last]) := by
  rcases @runs_or_ends _ _ fmt left init with hruns | ⟨body, rest, rfl, hends⟩
  · rw [scan_runs hruns] at hother
    obtain ⟨frame, hbody, rfl, -⟩ := scanStep_some hother
    obtain rfl := Scan.body.inj hbody
    have hleft : left.length % fmt.size = 0 := by
      by_contra hne
      rw [List.append_assoc, List.length_append] at hmod
      exact mod_add_ne hne hfits hmod
    exact ⟨hleft, hruns.noEarlyEnd hleft hfits⟩
  · have hshorter := ended_shorter (scan_ends hends) hother
    have hbody := List.length_pos_iff.mpr hends.1
    simp only [List.length_append, List.length_singleton] at hmod
    omega

/-- A frame whose last byte ends what has the frame's length in the buffer was stored from the
beginning of the buffer on, and has no early end. -/
theorem of_scan_last {init other : List β} {last : β}
    (hheader : fmt.half ++ fmt.half <+: init ++ [last])
    (hmarker : fmt.marker <:+ init ++ [last]) (hfits : (init ++ [last]).length < fmt.size)
    {s : Scan β} (hok : fmt.Ok s)
    (hother : (fmt.scanStep (fmt.scan s init).1 last).2 = some other)
    (hmod : other.length % fmt.size = (init ++ [last]).length) :
    fmt.place s = 0 ∧ fmt.NoEarlyEnd (init ++ [last]) := by
  cases s with
  | head seen =>
    by_cases hseen : seen = []
    · subst hseen
      obtain ⟨rest, rfl⟩ := header_init hheader hmarker
      exact ⟨rfl, noEarlyEnd_of_idle hfits hother hmod⟩
    · exact absurd hmod (scan_last_apart hheader hfits hok hseen hother)
  | body left => exact noEarlyEnd_of_body hfits hother hmod

/-! ### Bytes before a frame -/

/-- Bytes that leave an idle scanner at the beginning of its buffer: nothing, or bytes that are
taken for frames up to their end, with a last one that may fill the buffer up instead. -/
inductive Absorbed (fmt : FrameFormat β) : List β → Prop
  | nil : Absorbed fmt []
  | frame (blocks : List (List β)) (body rest : List β) : fmt.Misses blocks →
      fmt.EndsFirst (fmt.half ++ fmt.half) body → Absorbed fmt rest →
      Absorbed fmt (fmt.half ++ (blocks.flatten ++ (fmt.half ++ (body ++ rest))))
  | full (blocks : List (List β)) (body : List β) : fmt.Misses blocks →
    fmt.Runs (fmt.half ++ fmt.half) body →
      fmt.size ∣ (fmt.half ++ fmt.half ++ body).length →
      Absorbed fmt (fmt.half ++ (blocks.flatten ++ (fmt.half ++ body)))

/-- These are all the bytes that leave it there. -/
theorem place_scan_eq_zero_iff (bytes : List β) :
    fmt.place (fmt.scan (.head []) bytes).1 = 0 ↔ fmt.Absorbed bytes := by
  constructor
  · intro h
    induction hn : bytes.length using Nat.strongRecOn generalizing bytes with
    | _ n ih =>
      rcases @scan_idle _ _ fmt bytes with ⟨seen, hlooks, hseen⟩ | ⟨blocks, rest, hmisses, rfl⟩
      · rw [hlooks] at h
        have hnil : bytes = [] := by
          by_contra hne
          exact hseen hne (List.eq_nil_of_length_eq_zero h)
        rw [hnil]
        exact .nil
      · rw [scan_lock hmisses] at h
        rcases @runs_or_ends _ _ fmt (fmt.half ++ fmt.half) rest with hruns | ⟨body, rest', rfl, hends⟩
        · rw [scan_runs hruns] at h
          exact .full blocks rest hmisses hruns (Nat.dvd_of_mod_eq_zero h)
        · rw [scan_append, scan_ends hends] at h
          refine .frame blocks body rest' hmisses hends (ih rest'.length ?_ rest' h rfl)
          have hpos := fmt.half_pos
          simp only [List.length_append] at hn
          omega
  · intro h
    induction h with
    | nil => rfl
    | frame blocks body rest hmisses hends _ ih =>
      rw [scan_lock hmisses, scan_append, scan_ends hends]
      exact ih
    | full blocks body hmisses hruns hfull =>
      rw [scan_lock hmisses, scan_runs hruns]
      exact Nat.mod_eq_zero_of_dvd hfull

end FrameFormat

end DasEdge.Library
