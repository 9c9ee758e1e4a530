import DasEdge.Board.CfgRecover
import Mathlib.Data.List.Nodup
import Mathlib.Data.List.TakeWhile

/-!
# A backup that is read back

The reader takes at most 10247 bytes for a line. A text that fits between the two pairs of marks in
as many is handed on whole, also when the line feed behind it has to wait for the next round; a
longer one is cut, and what is handed on of it, if anything, is not the text.
-/

namespace DasEdge.Board

open DasEdge.Library

/-- A text that can be told from the marks around it: an object, without the bytes that end lines
and strings. -/
structure LineText (text : List UInt8) : Prop where
  opens : text[0]? = some 123
  closes : text.getLast? = some 125
  clean : ∀ b ∈ text, b ≠ 0 ∧ b ≠ 10 ∧ b ≠ 13

/-- The marks around a text. -/
def marked (text : List UInt8) : List UInt8 := [35, 35] ++ text ++ [35, 35]

/-- What is between the marks is handed on. -/
theorem checkCfgLine_marked {text : List UInt8} (h : LineText text) :
    checkCfgLine (marked text) = some text := by
  obtain ⟨front, rfl⟩ := List.getLast?_eq_some_iff.mp h.closes
  have hlength : (marked (front ++ [125])).length = front.length + 5 := by
    simp only [marked, List.length_append, List.length_cons, List.length_nil]
    omega
  have hopen : (marked (front ++ [125]))[2]? = some 123 := by
    rw [marked, List.append_assoc, ← h.opens]
    rw [List.getElem?_append_right (by decide), List.getElem?_append_left (by simp)]
    rfl
  have hback : ∀ k, (marked (front ++ [125]))[front.length + 2 + k]? = [125, 35, 35][k]? := by
    intro k
    have hsplit : marked (front ++ [125]) = ([35, 35] ++ front) ++ [125, 35, 35] := by simp [marked]
    have hfront : ([35, 35] ++ front).length = front.length + 2 := by simp
    rw [hsplit, List.getElem?_append_right (by omega), hfront, Nat.add_sub_cancel_left]
  rw [checkCfgLine, if_pos, hlength]
  · have hmarks : ([35, 35] ++ (front ++ [125])).length = front.length + 5 - 2 := by simp
    rw [marked, List.take_left' hmarks]
    rfl
  · rw [hlength]
    exact ⟨rfl, rfl, hopen, hback 0, hback 1, hback 2⟩

/-- A string ends at the first zero. -/
theorem cString_append {text : List UInt8} (h : ∀ b ∈ text, b ≠ 0) (rest : List UInt8) :
    cString (text ++ 0 :: rest) = text := by
  rw [cString, List.takeWhile_append_of_pos (by simpa using h)]
  simp

/-- The line feed of a line is found. -/
theorem lineEnd_append {text : List UInt8} (h : ∀ b ∈ text, b ≠ 10) (rest : List UInt8) :
    lineEnd (text ++ 10 :: rest) = text.length + 1 := by
  induction text with
  | nil => rfl
  | cons c text ih =>
    obtain ⟨hc, htext⟩ := List.forall_mem_cons.mp h
    rw [List.cons_append, lineEnd, if_neg hc, ih htext, List.length_cons]

/-- Without a line feed the line ends with the bytes that were read. -/
theorem lineEnd_of_clean {text : List UInt8} (h : ∀ b ∈ text, b ≠ 10) : lineEnd text = text.length := by
  induction text with
  | nil => rfl
  | cons c text ih =>
    obtain ⟨hc, htext⟩ := List.forall_mem_cons.mp h
    rw [lineEnd, if_neg hc, ih htext, List.length_cons]

/-- No line feed and no carriage return stands before the end of a clean line. -/
theorem getElem?_clean {line : List UInt8} (hclean : ∀ b ∈ line, b ≠ 0 ∧ b ≠ 10 ∧ b ≠ 13)
    (rest : List UInt8) {k : ℕ}
    (hk : k < line.length) : (line ++ rest)[k]? ≠ some 10 ∧ (line ++ rest)[k]? ≠ some 13 := by
  rw [List.getElem?_append_left hk, List.getElem?_eq_getElem hk]
  obtain ⟨-, hfeed, hreturn⟩ := hclean _ (List.getElem_mem hk)
  exact ⟨fun h => hfeed (Option.some.inj h), fun h => hreturn (Option.some.inj h)⟩

/-- A line without a carriage return at its end. -/
def trimReturn (line : List UInt8) : List UInt8 :=
  if line.getLast? = some 13 then line.dropLast else line

/-- A line that fits into the buffer with its line feed is read, without a carriage return in front
of it. -/
theorem readline_terminated {bufsz : ℕ} {line buf : List UInt8} (rest : List UInt8)
    (hclean : ∀ b ∈ line, b ≠ 0 ∧ b ≠ 10)
    (hfits : line.length + 1 ≤ bufsz - 1) :
    (readline bufsz (buf, line ++ 10 :: rest)).1 = trimReturn line ∧
      (readline bufsz (buf, line ++ 10 :: rest)).2.2 = rest := by
  have hchunk : (line ++ 10 :: rest).take (bufsz - 1) =
      line ++ 10 :: rest.take (bufsz - 1 - line.length - 1) := by
    obtain ⟨k, hk⟩ := Nat.exists_eq_add_of_le hfits
    rw [List.take_append, List.take_of_length_le (by omega), hk,
      show line.length + 1 + k - line.length = k + 1 by omega,
      List.take_succ_cons]
    rfl
  have hindex := lineEnd_append (fun b hb => (hclean b hb).2) (rest.take (bufsz - 1 - line.length - 1))
  -- the bytes behind the line feed do not matter
  obtain ⟨tail, htail⟩ : ∃ tail,
    (if line.length + 1 < ((line ++ 10 :: rest).take (bufsz - 1)).length then
      (((line ++ 10 :: rest).take (bufsz - 1) ++
      buf.drop ((line ++ 10 :: rest).take (bufsz - 1)).length).set
        (bufsz - 1) 0).set (line.length + 1) 0
      else ((line ++ 10 :: rest).take (bufsz - 1) ++
      buf.drop ((line ++ 10 :: rest).take (bufsz - 1)).length).set
        (bufsz - 1) 0) = line ++ 10 :: tail := by
    have hset : ∀ (tail : List UInt8) (k : ℕ), line.length < k →
        ∃ tail', (line ++ 10 :: tail).set k 0 = line ++ 10 :: tail' := by
      intro tail k hk
      obtain ⟨j, rfl⟩ := Nat.exists_eq_add_of_lt hk
      refine ⟨tail.set j 0, ?_⟩
      rw [List.set_append_right _ _ (by omega), show line.length + j + 1 - line.length =
        j + 1 by omega, List.set_cons_succ]
    rw [hchunk, List.append_assoc, List.cons_append]
    obtain ⟨tail', htail'⟩ := hset (rest.take (bufsz - 1 - line.length - 1) ++
      buf.drop (line ++ 10 :: rest.take (bufsz - 1 - line.length - 1)).length) (bufsz - 1) (by omega)
    rw [htail']
    split
    · exact hset tail' _ (Nat.lt_succ_self _)
    · exact ⟨tail', rfl⟩
  simp only [readline]
  rw [hchunk] at htail ⊢
  rw [hindex, htail]
  have hfeed : 1 ≤ line.length + 1 ∧ (line ++ 10 :: tail)[line.length + 1 - 1]? = some 10 := by
    refine ⟨Nat.succ_pos _, ?_⟩
    rw [Nat.add_sub_cancel, List.getElem?_append_right (Nat.le_refl _), Nat.sub_self]
    rfl
  have hzero : (line ++ 10 :: tail).set (line.length + 1 - 1) 0 = line ++ 0 :: tail := by
    rw [Nat.add_sub_cancel, List.set_append_right _ _ (Nat.le_refl _), Nat.sub_self, List.set_cons_zero]
  rw [if_pos hfeed, hzero]
  refine ⟨?_, by rw [List.append_cons,
    List.drop_left' (by rw [List.length_append, List.length_singleton])]⟩
  rcases List.eq_nil_or_concat line with rfl | ⟨front, c, rfl⟩
  · rw [if_neg fun h => absurd h.1 (by decide)]
    rfl
  · have hback : front.length + 1 + 1 - 2 = front.length := by omega
    rw [trimReturn, List.concat_eq_append, List.getLast?_concat, List.dropLast_concat,
      List.length_append, List.length_singleton,
      hback, List.append_assoc, List.getElem?_append_right (Nat.le_refl _), Nat.sub_self]
    by_cases hc : c = 13
    · subst hc
      rw [if_pos ⟨by omega, rfl⟩, if_pos rfl, List.set_append_right _ _ (Nat.le_refl _), Nat.sub_self]
      exact cString_append (fun b hb => (hclean b (by simp [hb])).1) _
    · rw [if_neg fun h => hc (Option.some.inj h.2), if_neg fun h => hc (Option.some.inj h),
        ← List.append_assoc]
      exact cString_append (fun b hb => (hclean b (by simpa using hb)).1) tail

/-- A line without carriage returns that fits into the buffer with its line feed is read. -/
theorem readline_line {bufsz : ℕ} {line buf : List UInt8} (rest : List UInt8)
    (hclean : ∀ b ∈ line, b ≠ 0 ∧ b ≠ 10 ∧ b ≠ 13) (hfits : line.length + 1 ≤ bufsz - 1) :
    (readline bufsz (buf, line ++ 10 :: rest)).1 = line ∧
      (readline bufsz (buf, line ++ 10 :: rest)).2.2 = rest := by
  have hread :=
    @readline_terminated bufsz line buf rest
    (fun b hb => ⟨(hclean b hb).1, (hclean b hb).2.1⟩) hfits
  have hkeep : trimReturn line = line :=
    if_neg fun hlast => (hclean 13 (List.mem_of_getLast? hlast)).2.2 rfl
  rwa [hkeep] at hread

/-- A line that fits into the buffer without its line feed is read, and its line feed is left for
the next round. -/
theorem readline_full {bufsz : ℕ} {line buf : List UInt8} (rest : List UInt8)
    (hclean : ∀ b ∈ line, b ≠ 0 ∧ b ≠ 10 ∧ b ≠ 13) (hfits : line.length = bufsz - 1)
    (hbuf : buf.length = bufsz)
    (hpos : 0 < bufsz) :
    (readline bufsz (buf, line ++ 10 :: rest)).1 = line ∧
      (readline bufsz (buf, line ++ 10 :: rest)).2.2 = 10 :: rest := by
  have hchunk : (line ++ 10 :: rest).take (bufsz - 1) = line := List.take_left' hfits
  have hindex := lineEnd_of_clean fun b hb => (hclean b hb).2.1
  obtain ⟨last, hlast⟩ : ∃ last, buf.drop line.length = [last] := by
    refine List.length_eq_one_iff.mp ?_
    rw [List.length_drop]
    omega
  have hline : (line ++ [last]).set (bufsz - 1) 0 = line ++ [0] := by
    rw [← hfits, List.set_append_right _ _ (Nat.le_refl _), Nat.sub_self, List.set_cons_zero]
  simp only [readline]
  rw [hchunk, hindex, hlast, hline, if_neg (Nat.lt_irrefl _)]
  have hfeed : ¬ (1 ≤ line.length ∧ (line ++ [0])[line.length - 1]? = some 10) := by
    rintro ⟨hle, hget⟩
    exact (getElem?_clean hclean _ (by omega)).1 hget
  have hreturn : ¬ (2 ≤ line.length ∧ (line ++ [0])[line.length - 2]? = some 13) := by
    rintro ⟨hle, hget⟩
    exact (getElem?_clean hclean _ (by omega)).2 hget
  rw [if_neg hfeed, if_neg hreturn]
  exact ⟨cString_append (fun b hb => (hclean b hb).1) [], List.drop_left' rfl⟩

/-- A buffer of this size ends with a zero. -/
def EndsAt (bufsz : ℕ) (buf : List UInt8) : Prop := buf.length = bufsz ∧ buf[bufsz - 1]? = some 0

/-- One more zero in the buffer keeps its end. -/
theorem EndsAt.set {bufsz : ℕ} {buf : List UInt8} (h : EndsAt bufsz buf) (c : Prop)
    [Decidable c] (i : ℕ) :
    EndsAt bufsz (if c then buf.set i 0 else buf) := by
  split
  · refine ⟨by rw [List.length_set, h.1], ?_⟩
    rw [List.getElem?_set]
    split
    · rename_i hi
      have hlt := (List.getElem?_eq_some_iff.mp h.2).1
      rw [if_pos (hi ▸ hlt)]
    · exact h.2
  · exact h

/-- A string ends where there is a zero, or before. -/
theorem cString_length {buf : List UInt8} {k : ℕ} (hzero : buf[k]? = some 0) :
    (cString buf).length ≤ k := by
  by_contra hlt
  have hbound : k < (cString buf).length := Nat.not_le.mp hlt
  have hget : (cString buf)[k] = 0 := by
    have hpre : cString buf <+: buf := List.takeWhile_prefix _
    rw [hpre.getElem hbound]
    exact Option.some.inj ((List.getElem?_eq_getElem _).symm.trans hzero)
  have hne := List.mem_takeWhile_imp (List.getElem_mem hbound)
  rw [hget] at hne
  cases hne

/-- A string in such a buffer is shorter than the buffer. -/
theorem EndsAt.cString_length {bufsz : ℕ} {buf : List UInt8} (h : EndsAt bufsz buf) :
    (cString buf).length ≤ bufsz - 1 :=
  Board.cString_length h.2

/-- A line that is read is shorter than the buffer, which keeps its size. -/
theorem readline_length {bufsz : ℕ} {s : List UInt8 × List UInt8} (hbuf : s.1.length = bufsz)
    (hpos : 0 < bufsz) :
    (readline bufsz s).1.length ≤ bufsz - 1 ∧ (readline bufsz s).2.1.length = bufsz := by
  have hchunk : (s.2.take (bufsz - 1)).length ≤ bufsz - 1 := List.length_take_le _ _
  have hends : EndsAt bufsz ((s.2.take (bufsz - 1) ++ s.1.drop (s.2.take (bufsz - 1)).length).set
      (bufsz - 1) 0) := by
    have hlength : (s.2.take (bufsz - 1) ++ s.1.drop (s.2.take (bufsz - 1)).length).length = bufsz := by
      rw [List.length_append, List.length_drop]
      omega
    refine ⟨by rw [List.length_set, hlength], ?_⟩
    rw [List.getElem?_set_self (by omega)]
  have hall : EndsAt bufsz (readline bufsz s).2.1 := ((hends.set _ _).set _ _).set _ _
  exact ⟨hall.cString_length, hall.1⟩

/-- Lines that are read one after the other. -/
theorem readLines_cons {bufsz fuel : ℕ} {buf file line rest : List UInt8}
    {lines : List (List UInt8)} (hfile : file ≠ [])
    (hline : (readline bufsz (buf, file)).1 = line) (hrest : (readline bufsz (buf, file)).2.2 = rest)
    (h : readLines bufsz fuel ((readline bufsz (buf, file)).2.1, rest) = some lines) :
    readLines bufsz (fuel + 1) (buf, file) = some (line :: lines) := by
  rw [← hrest] at h
  simp only [readLines, if_neg hfile, h, hline]
  rfl

/-- Lines of marked texts, the first one at the front. -/
theorem flatMap_markedLine_cons (text : List UInt8) (texts : List (List UInt8)) :
    (text :: texts).flatMap markedLine = marked text ++ 10 :: texts.flatMap markedLine := by
  simp [markedLine, marked]

/-- Nothing in a marked text ends a line or a string. -/
theorem marked_clean {text : List UInt8} (h : LineText text) : ∀ b ∈ marked text, b ≠ 0 ∧ b ≠ 10 ∧
    b ≠ 13 := by
  intro b hb
  rw [marked, List.mem_append, List.mem_append] at hb
  rcases hb with (hb | hb) | hb
  · rcases List.mem_pair.mp hb with rfl | rfl <;> decide
  · exact h.clean b hb
  · rcases List.mem_pair.mp hb with rfl | rfl <;> decide

/-- The marks take four bytes. -/
@[simp]
theorem length_marked (text : List UInt8) : (marked text).length = text.length + 4 := by
  simp only [marked, List.length_append, List.length_cons, List.length_nil]
  omega

/-- Marked texts that fit into the buffer are handed on, each once and in order. -/
theorem readLines_marked {bufsz : ℕ} {texts : List (List UInt8)}
    (htexts : ∀ text ∈ texts, LineText text)
    (hfits : ∀ text ∈ texts, text.length + 4 ≤ bufsz - 1) (buf : List UInt8)
    (hbuf : buf.length = bufsz) (fuel : ℕ)
    (hfuel : (texts.flatMap markedLine).length < fuel) :
    ∃ lines, readLines bufsz fuel (buf, texts.flatMap markedLine) = some lines ∧
      lines.filterMap checkCfgLine = texts := by
  induction texts generalizing buf fuel with
  | nil =>
    cases fuel with
    | zero => exact absurd hfuel (Nat.not_lt_zero _)
    | succ fuel => exact ⟨[], rfl, rfl⟩
  | cons text texts ih =>
    obtain ⟨htext, htexts⟩ := List.forall_mem_cons.mp htexts
    obtain ⟨hfit, hfits⟩ := List.forall_mem_cons.mp hfits
    have hpos : 0 < bufsz := by omega
    have hclean := marked_clean htext
    rw [flatMap_markedLine_cons, List.length_append, List.length_cons, length_marked] at hfuel
    obtain ⟨fuel, rfl⟩ : ∃ k, fuel = k + 1 := ⟨fuel - 1, by omega⟩
    rw [flatMap_markedLine_cons]
    generalize hrest : texts.flatMap markedLine = rest at *
    have hbuf' : (readline bufsz (buf, marked text ++ 10 :: rest)).2.1.length = bufsz :=
    (readline_length hbuf hpos).2
    have hne : marked text ++ 10 :: rest ≠ [] := by simp
    by_cases hfull : text.length + 5 ≤ bufsz - 1
    · -- the line feed is in the buffer
      have hfits' : (marked text).length + 1 ≤ bufsz - 1 := by
        rw [length_marked]
        omega
      obtain ⟨hline, hrest'⟩ : (readline bufsz (buf, marked text ++ 10 :: rest)).1 = marked text ∧ _ :=
        readline_line rest hclean hfits'
      obtain ⟨lines, hlines, hkept⟩ := ih htexts hfits _ hbuf' fuel (by omega)
      refine ⟨marked text :: lines, readLines_cons hne hline hrest' hlines, ?_⟩
      rw [List.filterMap_cons, checkCfgLine_marked htext, hkept]
    · -- the line feed is read as a line of its own
      have hlength : (marked text).length = bufsz - 1 := by
        rw [length_marked]
        omega
      obtain ⟨hline, hrest'⟩ := readline_full rest hclean hlength hbuf hpos
      have hone : ([] : List UInt8).length + 1 ≤ bufsz - 1 := by
        rw [List.length_nil]
        omega
      generalize hbuf₁ : (readline bufsz (buf, marked text ++ 10 :: rest)).2.1 = buf₁ at hbuf'
      obtain ⟨hempty, hrest''⟩ : (readline bufsz (buf₁, 10 :: rest)).1 = [] ∧ _ :=
        readline_line rest (List.forall_mem_nil _) hone
      obtain ⟨fuel, rfl⟩ : ∃ k, fuel = k + 1 := ⟨fuel - 1, by omega⟩
      have hbuf'' : (readline bufsz (buf₁, 10 :: rest)).2.1.length = bufsz :=
        (readline_length hbuf' hpos).2
      obtain ⟨lines, hlines, hkept⟩ := ih htexts hfits _ hbuf'' fuel (by omega)
      have hsecond := readLines_cons (List.cons_ne_nil 10 rest) hempty hrest'' hlines
      rw [← hbuf₁] at hsecond
      refine ⟨marked text :: [] :: lines, readLines_cons hne hline hrest' hsecond, ?_⟩
      rw [List.filterMap_cons, checkCfgLine_marked htext, List.filterMap_cons]
      exact congrArg _ hkept

/-- A line that is handed on has come through the buffer. -/
theorem readLines_length {bufsz fuel : ℕ} {s : List UInt8 × List UInt8} (hbuf : s.1.length = bufsz)
    (hpos : 0 < bufsz)
    {lines : List (List UInt8)} (h : readLines bufsz fuel s = some lines) :
    ∀ line ∈ lines, line.length ≤ bufsz - 1 := by
  induction fuel generalizing s lines with
  | zero => cases h
  | succ fuel ih =>
    rw [readLines] at h
    split at h
    · cases h
      simp
    · obtain ⟨tail, htail, rfl⟩ := Option.map_eq_some_iff.mp h
      obtain ⟨hline, hbuf'⟩ := readline_length hbuf hpos
      exact List.forall_mem_cons.mpr ⟨hline, ih hbuf' htail⟩

/-- A line has a byte. -/
theorem lineEnd_pos {chunk : List UInt8} (h : chunk ≠ []) : 0 < lineEnd chunk := by
  cases chunk with
  | nil => exact absurd rfl h
  | cons c chunk =>
    rw [lineEnd]
    split <;> exact Nat.succ_pos _

/-- A line that is read takes a byte from the file. -/
theorem readline_shorter {bufsz : ℕ} (hpos : 1 < bufsz) {s : List UInt8 × List UInt8}
    (hfile : s.2 ≠ []) :
    (readline bufsz s).2.2.length < s.2.length := by
  have hchunk : s.2.take (bufsz - 1) ≠ [] := by
    rw [Ne, List.take_eq_nil_iff]
    rintro (h | h)
    · omega
    · exact hfile h
  have hstep := lineEnd_pos hchunk
  have hlength := List.length_pos_iff.mpr hfile
  simp only [readline, List.length_drop]
  omega

/-- The reader comes to the end of every file. -/
theorem exists_readLines {bufsz fuel : ℕ} (hpos : 1 < bufsz) (s : List UInt8 × List UInt8)
    (hfuel : s.2.length < fuel) :
    ∃ lines, readLines bufsz fuel s = some lines := by
  induction fuel generalizing s with
  | zero => exact absurd hfuel (Nat.not_lt_zero _)
  | succ fuel ih =>
    by_cases hfile : s.2 = []
    · exact ⟨[], by rw [readLines, if_pos hfile]⟩
    · have hread := readline_shorter hpos hfile
      obtain ⟨lines, hlines⟩ := ih (readline bufsz s).2 (by omega)
      exact ⟨(readline bufsz s).1 :: lines, by simp only [readLines, if_neg hfile, hlines,
        Option.map_some]⟩

/-- A text is shorter than its line by the marks. -/
theorem length_of_checkCfgLine {line text : List UInt8} (h : checkCfgLine line = some text) :
    text.length = line.length - 4 := by
  rw [checkCfgLine] at h
  split at h
  · cases h
    rw [List.length_drop, List.length_take]
    omega
  · cases h

/-- The file of a backup is the lines of its texts. -/
theorem cfgSaveWithJson_eq (print : CJson → List UInt8) (env : CfgEnv) :
    cfgSaveWithJson print env = (verText :: (cfgItems env).map print).flatMap markedLine := by
  rw [List.flatMap_cons, List.flatMap_map]
  rfl

-- The bytes are a finite type: a text is gone through, and not all bytes.
local instance (priority := 1100) decidableText (p : UInt8 → Prop) [DecidablePred p]
  (text : List UInt8) :
    Decidable (∀ a ∈ text, p a) :=
  List.decidableBAll p text

/-- The text of the version is read as the others are. -/
theorem lineText_verText : LineText verText := ⟨by decide, by decide, by decide⟩

/-- Texts that are short enough are handed on. -/
theorem cfgRecoverWithJson_saved {print : CJson → List UInt8} {env : CfgEnv} {buf : List UInt8}
    (hbuf : buf.length = lineBufsz) (htexts : ∀ item ∈ cfgItems env, LineText (print item))
    (hfits : ∀ item ∈ cfgItems env, (print item).length ≤ 10243) :
    cfgRecoverWithJson buf (cfgSaveWithJson print env) =
      some (some verText, (cfgItems env).map print) := by
  have htexts' : ∀ text ∈ verText :: (cfgItems env).map print, LineText text :=
    List.forall_mem_cons.mpr ⟨lineText_verText, List.forall_mem_map.mpr htexts⟩
  have hfits' : ∀ text ∈ verText :: (cfgItems env).map print, text.length + 4 ≤ lineBufsz - 1 := by
    refine List.forall_mem_cons.mpr ⟨by decide, List.forall_mem_map.mpr fun item hitem => ?_⟩
    exact Nat.add_le_add_right (hfits item hitem) 4
  obtain ⟨lines, hlines, hkept⟩ := readLines_marked htexts' hfits' buf hbuf _ (Nat.lt_succ_self _)
  rw [cfgRecoverWithJson, cfgSaveWithJson_eq, hlines, Option.map_some, hkept]
  rfl

/-- What is handed on is short. -/
theorem length_of_cfgRecoverWithJson {buf file : List UInt8} (hbuf : buf.length = lineBufsz)
    {ver : Option (List UInt8)}
    {texts : List (List UInt8)} (h : cfgRecoverWithJson buf file = some (ver, texts)) :
    ∀ text ∈ texts, text.length ≤ 10243 := by
  obtain ⟨lines, hlines, heq⟩ := Option.map_eq_some_iff.mp h
  cases heq
  intro text htext
  obtain ⟨line, hline, hcheck⟩ := List.mem_filterMap.mp (List.mem_of_mem_tail htext)
  have hlength := readLines_length hbuf (by decide) hlines line hline
  have hmarks := length_of_checkCfgLine hcheck
  simp only [lineBufsz] at hlength
  omega

/-- The file that a line of a backup writes. -/
def iniWrite (parse : List UInt8 → Option CJson) (text : List UInt8) : Option (String × List UInt8) :=
  match parseCfgLine parse text with
  | .writeTextFile path content => some (path, content)
  | _ => none

/-- The files that the lines of a backup write. -/
def iniWrites (parse : List UInt8 → Option CJson) (texts : List (List UInt8)) :
    List (String × List UInt8) :=
  texts.filterMap (iniWrite parse)

/-- The text files that are not empty. -/
def iniFiles (env : CfgEnv) : List (String × List UInt8) :=
  iniPaths.filterMap fun path => (dasReadTextFile env path).map (path, ·)

/-- A text is equal to itself without regard to case. -/
@[simp]
theorem strcasecmp_self (s : String) : strcasecmp s s = true := decide_eq_true rfl

/-- The types of the lines can be set. -/
theorem mem_cfgTypes {env : CfgEnv} {line : String × ℕ} (h : line ∈ cfgLines env) :
    line.1 ∈ cfgTypes := by
  simp only [cfgLines, List.mem_append, List.mem_map, List.mem_cons, List.not_mem_nil, or_false] at h
  obtain (((rfl | ⟨n, _, rfl⟩) | ⟨n, _, rfl⟩) | ⟨n, _,
    rfl⟩) | rfl | rfl | rfl | rfl | rfl | rfl | rfl := h <;> simp [cfgTypes]

/-- The type of a line is found. -/
@[simp]
theorem getString_cfgItem (type : String) (cfg : CJson) :
    (cfgItem type cfg).getString "type" = some type := by
  simp [cfgItem, CJson.getString, CJson.getObjectItem, CJson.valuestring]

/-- The object of a line is found. -/
@[simp]
theorem getObjectItem_cfgItem (type : String) (cfg : CJson) :
    (cfgItem type cfg).getObjectItem "cfg" = some cfg := by
  have htype : strcasecmp "type" "cfg" = false := by decide
  simp [cfgItem, CJson.getObjectItem, htype]

/-- The line of a configuration sets it. -/
theorem parseCfgLine_cfgItem {parse : List UInt8 → Option CJson} {text : List UInt8} {type : String}
    {cfg : CJson}
    (hparse : parse text = some (cfgItem type cfg)) (htype : type ∈ cfgTypes) :
    ∃ known, parseCfgLine parse text = .set known cfg := by
  have hfind : (cfgTypes.find? (strcasecmp type)).isSome :=
    List.find?_isSome.mpr ⟨type, htype, strcasecmp_self type⟩
  obtain ⟨known, hknown⟩ := Option.isSome_iff_exists.mp hfind
  refine ⟨known, ?_⟩
  simp only [parseCfgLine, hparse, getString_cfgItem, getObjectItem_cfgItem, hknown]

/-- The ends of lines are put back. -/
theorem showLineEnd_hideLineEnd {b : UInt8} (h : b ≠ 1 ∧ b ≠ 2) : showLineEnd (hideLineEnd b) = b := by
  by_cases hreturn : b = 13
  · subst hreturn
    rfl
  · by_cases hfeed : b = 10
    · subst hfeed
      rfl
    · rw [hideLineEnd, if_neg hreturn, if_neg hfeed, showLineEnd, if_neg h.1, if_neg h.2]

/-- The line of a text file writes the file with its bytes. -/
theorem parseCfgLine_iniItem {parse : List UInt8 → Option CJson} {text : List UInt8} {path : String}
    {content : List UInt8}
    (hparse : parse text = some (iniItem path content)) (hne : content ≠ [])
    (hclean : ∀ b ∈ content, b ≠ 1 ∧ b ≠ 2) :
    parseCfgLine parse text = .writeTextFile path content := by
  have hfind : cfgTypes.find? (strcasecmp "ini") = none := by decide
  have hpath : strcasecmp "path" "data" = false := by decide
  have hdata : content.map hideLineEnd ≠ [] := fun h => hne (List.map_eq_nil_iff.mp h)
  have hshow : (content.map hideLineEnd).map showLineEnd = content := by
    rw [List.map_map]
    exact (List.map_congr_left fun b hb => showLineEnd_hideLineEnd (hclean b hb)).trans
      (List.map_id content)
  rw [iniItem] at hparse
  simp only [parseCfgLine, hparse, getString_cfgItem, getObjectItem_cfgItem, hfind,
    strcasecmp_self, if_true]
  simp [parseIniLine, CJson.getString, CJson.getObjectItem, CJson.valuestring, hpath, hdata, hshow]

/-- What is not empty is read from a text file. -/
theorem dasReadTextFile_eq_some {env : CfgEnv} {path : String} {content : List UInt8}
    (h : dasReadTextFile env path = some content) : env.textFile path = some content ∧
    content ≠ [] := by
  obtain ⟨hfile, hne⟩ := Option.filter_eq_some_iff.mp h
  exact ⟨hfile, of_decide_eq_true hne⟩

/-- The texts of a backup write the text files. -/
theorem iniWrites_saved {print : CJson → List UInt8} {parse : List UInt8 → Option CJson} {env : CfgEnv}
    (hparse : ∀ item ∈ cfgItems env, parse (print item) = some item)
    (hclean : ∀ path content, env.textFile path = some content → ∀ b ∈ content, b ≠ 0 ∧ b ≠ 1 ∧ b ≠ 2) :
    iniWrites parse ((cfgItems env).map print) = iniFiles env := by
  obtain ⟨hlines, hfiles⟩ := List.forall_mem_append.mp hparse
  rw [iniWrites, cfgItems, List.map_append, List.filterMap_append]
  have hnone : (((cfgLines env).map fun line => cfgItem line.1 (env.cfg line.1 line.2)).map
      print).filterMap (iniWrite parse) = [] := by
    refine List.filterMap_eq_nil_iff.mpr (List.forall_mem_map.mpr fun item hitem => ?_)
    have hread := hlines item hitem
    obtain ⟨line, hline, rfl⟩ := List.mem_map.mp hitem
    obtain ⟨known, hset⟩ := parseCfgLine_cfgItem hread (mem_cfgTypes hline)
    rw [iniWrite, hset]
  rw [hnone, List.nil_append, List.map_filterMap, List.filterMap_filterMap, iniFiles]
  refine List.filterMap_congr fun path hpath => ?_
  cases hfile : dasReadTextFile env path with
  | none => rfl
  | some content =>
    obtain ⟨hcontent, hne⟩ := dasReadTextFile_eq_some hfile
    have hmem : iniItem path content ∈ iniPaths.filterMap fun path =>
        (dasReadTextFile env path).map (iniItem path) :=
      List.mem_filterMap.mpr ⟨path, hpath, by rw [hfile, Option.map_some]⟩
    have hwrite :=
      parseCfgLine_iniItem (hfiles _ hmem) hne fun b hb => (hclean path content hcontent b hb).2
    simp only [Option.map_some, Option.bind_some, iniWrite, hwrite]

/-- The recovery comes to an end with every file. -/
theorem exists_cfgRecoverWithJson (buf file : List UInt8) :
    ∃ r, cfgRecoverWithJson buf file = some r := by
  obtain ⟨lines, hlines⟩ :=
    exists_readLines (show 1 < lineBufsz by decide) (buf, file) (Nat.lt_succ_self _)
  exact ⟨_, Option.map_eq_some_iff.mpr ⟨lines, hlines, rfl⟩⟩

/-- The texts of a backup are handed on, each once and in order, and the text files get their bytes
back. -/
def RoundTrips (print : CJson → List UInt8) (parse : List UInt8 → Option CJson) (env : CfgEnv)
    (buf : List UInt8) : Prop :=
  ∃ texts, cfgRecoverWithJson buf (cfgSaveWithJson print env) = some (some verText, texts) ∧
    texts = (cfgItems env).map print ∧ iniWrites parse texts = iniFiles env

/-- A backup comes back exactly when each of its texts and the marks around it fit into the buffer
of the reader. -/
theorem roundTrips_iff {print : CJson → List UInt8} {parse : List UInt8 → Option CJson}
    {env : CfgEnv} {buf : List UInt8}
    (hbuf : buf.length = lineBufsz) (htexts : ∀ item ∈ cfgItems env, LineText (print item))
    (hparse : ∀ item ∈ cfgItems env, parse (print item) = some item)
    (hclean : ∀ path content, env.textFile path = some content → ∀ b ∈ content, b ≠ 0 ∧ b ≠ 1 ∧ b ≠ 2) :
    RoundTrips print parse env buf ↔ ∀ item ∈ cfgItems env, (print item).length ≤ 10243 := by
  constructor
  · rintro ⟨texts, hrecover, rfl, -⟩ item hitem
    exact length_of_cfgRecoverWithJson hbuf hrecover _ (List.mem_map_of_mem hitem)
  · intro hfits
    exact ⟨_, cfgRecoverWithJson_saved hbuf htexts hfits, rfl, iniWrites_saved hparse hclean⟩

/-- A box with the text file of one channel. -/
def boxWithFile (content : List UInt8) : CfgEnv where
  cfg := fun _ _ => .object []
  nExtDataListCnt := 0
  textFile := fun path => if path = "/media/nand/cfg/rtu_dm101_0.ini" then some content else none

/-- The values of its backup. -/
def boxItems (content : List UInt8) : List CJson :=
  cfgTypes.map (cfgItem · (.object [])) ++ [iniItem "/media/nand/cfg/rtu_dm101_0.ini" content]

/-- A parser that knows the texts of its backup. -/
def boxParse (content : List UInt8) (text : List UInt8) : Option CJson :=
  (boxItems content).find? fun item => item.printUnformatted = text

/-- The backup holds no other values. -/
theorem mem_boxItems {content : List UInt8} {item : CJson} (h : item ∈ cfgItems (boxWithFile content)) :
    item ∈ boxItems content := by
  rcases List.mem_append.mp h with h | h
  · obtain ⟨line, hline, rfl⟩ := List.mem_map.mp h
    exact List.mem_append_left _ (List.mem_map.mpr ⟨line.1, mem_cfgTypes hline, rfl⟩)
  · obtain ⟨path, -, hitem⟩ := List.mem_filterMap.mp h
    obtain ⟨content', hfile, rfl⟩ := Option.map_eq_some_iff.mp hitem
    obtain ⟨hfile, -⟩ := dasReadTextFile_eq_some hfile
    obtain ⟨rfl, hcontent⟩ := Option.ite_none_right_eq_some.mp hfile
    obtain rfl := Option.some.inj hcontent
    exact List.mem_append_right _ (List.mem_singleton_self _)

/-- The text in front of the bytes of the file. -/
def boxHead : List UInt8 :=
  bytesOf "\x7b\"type\":\"ini\",\"cfg\":\x7b\"path\":\"/media/nand/cfg/rtu_dm101_0.ini\",\"data\":\""

/-- The text of a file of letters. -/
theorem printUnformatted_iniItem (n : ℕ) :
    (iniItem "/media/nand/cfg/rtu_dm101_0.ini" (List.replicate n 97)).printUnformatted =
      boxHead ++ List.replicate n 97 ++ [34, 125, 125] := by
  have hletter : escapeByte 97 = [97] := by decide
  have hdata : printString (textOf ((List.replicate n 97).map hideLineEnd)) =
      [34] ++ List.replicate n 97 ++ [34] := by
    rw [printString, bytesOf_textOf, List.map_replicate, show hideLineEnd 97 = 97 from rfl,
      List.flatMap_replicate, hletter,
      List.flatten_replicate_singleton]
  have hhead : [123] ++ printString "type" ++ [58] ++ printString "ini" ++ [44] ++
    printString "cfg" ++ [58] ++ [123] ++
      printString "path" ++ [58] ++ printString "/media/nand/cfg/rtu_dm101_0.ini" ++ [44] ++
      printString "data" ++ [58] ++
      [34] = boxHead := by decide
  rw [← hhead]
  simp only [iniItem, cfgItem, CJson.printUnformatted, CJson.printObject, hdata, List.append_assoc,
    List.cons_append,
    List.nil_append]

/-- No other text of the backup begins like it, and they all differ. -/
theorem boxItems_nodup (n : ℕ) :
    ((boxItems (List.replicate n 97)).map CJson.printUnformatted).Nodup := by
  have htypes : ((cfgTypes.map (cfgItem · (.object []))).map CJson.printUnformatted).Nodup := by decide
  have hhead : ∀ text ∈ (cfgTypes.map (cfgItem · (.object []))).map CJson.printUnformatted,
      ¬ boxHead <+: text := by
    decide
  rw [boxItems, List.map_append, List.map_singleton, printUnformatted_iniItem]
  refine List.nodup_append.mpr ⟨htypes, by simp, fun text htext other hother heq => ?_⟩
  obtain rfl := List.mem_singleton.mp hother
  refine hhead text htext ?_
  rw [heq, List.append_assoc]
  exact List.prefix_append _ _

/-- The values of the backup are read from their texts. -/
theorem boxParse_printUnformatted {n : ℕ} {item : CJson}
    (h : item ∈ cfgItems (boxWithFile (List.replicate n 97))) :
    boxParse (List.replicate n 97) item.printUnformatted = some item := by
  have hmem := mem_boxItems h
  have hnodup := boxItems_nodup n
  rw [boxParse]
  cases hfind : (boxItems (List.replicate n 97)).find? fun other => other.printUnformatted =
    item.printUnformatted with
  | none => exact absurd (List.find?_eq_none.mp hfind item hmem) (by simp)
  | some other =>
    have heq : other.printUnformatted = item.printUnformatted := by simpa using List.find?_some hfind
    rw [List.inj_on_of_nodup_map hnodup (List.mem_of_find?_eq_some hfind) hmem heq]

/-- The texts of the backup are lines. -/
theorem lineText_box {n : ℕ} {item : CJson} (h : item ∈ cfgItems (boxWithFile (List.replicate n 97))) :
    LineText item.printUnformatted := by
  rcases List.mem_append.mp (mem_boxItems h) with h | h
  · have htypes : ∀ text ∈ (cfgTypes.map (cfgItem · (.object []))).map CJson.printUnformatted,
        text[0]? = some 123 ∧ text.getLast? = some 125 ∧ ∀ b ∈ text, b ≠ 0 ∧ b ≠ 10 ∧
          b ≠ 13 := by decide
    obtain ⟨hopens, hcloses, hclean⟩ := htypes _ (List.mem_map_of_mem h)
    exact ⟨hopens, hcloses, hclean⟩
  · rw [List.mem_singleton.mp h, printUnformatted_iniItem]
    refine ⟨?_, ?_, ?_⟩
    · rw [List.append_assoc, List.getElem?_append_left (by decide)]
      decide
    · rw [List.getLast?_append_of_ne_nil _ (by simp)]
      rfl
    · intro b hb
      rw [List.mem_append, List.mem_append] at hb
      rcases hb with (hb | hb) | hb
      · revert b
        decide
      · rw [List.eq_of_mem_replicate hb]
        decide
      · simp only [List.mem_cons, List.not_mem_nil, or_false] at hb
        rcases hb with rfl | rfl | rfl <;> decide

/-- The bytes of the file are letters. -/
theorem boxWithFile_clean (n : ℕ) (path : String) (content : List UInt8)
    (h : (boxWithFile (List.replicate n 97)).textFile path = some content) :
    ∀ b ∈ content, b ≠ 0 ∧ b ≠ 1 ∧ b ≠ 2 := by
  obtain ⟨-, hcontent⟩ := Option.ite_none_right_eq_some.mp h
  obtain rfl := Option.some.inj hcontent
  intro b hb
  rw [List.eq_of_mem_replicate hb]
  decide

/-- The file is in the backup. -/
theorem iniItem_mem_box {n : ℕ} (hn : n ≠ 0) :
    iniItem "/media/nand/cfg/rtu_dm101_0.ini" (List.replicate n 97) ∈
      cfgItems (boxWithFile (List.replicate n 97)) := by
  have hpath : "/media/nand/cfg/rtu_dm101_0.ini" ∈ iniPaths := by decide
  have hfile : dasReadTextFile (boxWithFile (List.replicate n 97)) "/media/nand/cfg/rtu_dm101_0.ini" =
      some (List.replicate n 97) := by simp [dasReadTextFile, boxWithFile, hn]
  exact List.mem_append_right _ (List.mem_filterMap.mpr ⟨_, hpath, by rw [hfile, Option.map_some]⟩)

/-- A box with a short text file gets its configuration back. -/
theorem roundTrips_short :
    RoundTrips CJson.printUnformatted (boxParse (List.replicate 3 97))
      (boxWithFile (List.replicate 3 97))
      (List.replicate lineBufsz 0) := by
  refine (roundTrips_iff (List.length_replicate ..) (fun _ => lineText_box)
    (fun _ => boxParse_printUnformatted)
    (boxWithFile_clean 3)).mpr fun item hitem => ?_
  have hall : ∀ text ∈ (boxItems (List.replicate 3 97)).map CJson.printUnformatted, text.length ≤
    10243 := by decide
  exact hall _ (List.mem_map_of_mem (mem_boxItems hitem))

/-- A text file of 10240 letters is not written back. -/
theorem not_roundTrips_long :
    (∀ item ∈ cfgItems (boxWithFile (List.replicate 10240 97)), LineText item.printUnformatted ∧
      boxParse (List.replicate 10240 97) item.printUnformatted = some item) ∧
    ¬ RoundTrips CJson.printUnformatted (boxParse (List.replicate 10240 97))
    (boxWithFile (List.replicate 10240 97))
      (List.replicate lineBufsz 0) := by
  refine ⟨fun item hitem => ⟨lineText_box hitem, boxParse_printUnformatted hitem⟩, ?_⟩
  rintro ⟨texts, hrecover, rfl, -⟩
  have hmem := iniItem_mem_box (show 10240 ≠ 0 by decide)
  have hlength :=
    length_of_cfgRecoverWithJson (List.length_replicate ..) hrecover _ (List.mem_map_of_mem hmem)
  rw [printUnformatted_iniItem, List.length_append, List.length_append,
    List.length_replicate] at hlength
  have hhead : 4 ≤ boxHead.length := by decide
  omega

end DasEdge.Board
