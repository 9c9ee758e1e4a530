import DasEdge.Board.CfgBackup

/-!
# The lines that the reader returns

`__readline` called until it returns null, on any file. A line that a line feed ends comes back as
it is. The last line of a file that does not end with a line feed comes back only if it fills the
buffer: otherwise nothing ends it but what is left in the buffer.
-/

namespace DasEdge.Board

open DasEdge.Library

/-- The lines of a file, each with what ends it. -/
def linePieces : List UInt8 → List (List UInt8)
  | [] => []
  | c :: rest =>
    if c = 10 then [c] :: linePieces rest
    else
      match linePieces rest with
      | [] => [[c]]
      | piece :: pieces => (c :: piece) :: pieces

/-- A line without the line feed, or the carriage return and the line feed, that ends it. -/
def pieceText (piece : List UInt8) : List UInt8 :=
  if piece.getLast? = some 10 then trimReturn piece.dropLast else piece

/-- The texts of the lines of a file. -/
def fileLines (file : List UInt8) : List (List UInt8) := (linePieces file).map pieceText

/-- The last line of a file, if no line feed ends it. -/
def openLine : List UInt8 → List UInt8
  | [] => []
  | c :: rest => if 10 ∈ c :: rest then openLine rest else c :: rest

/-- Calls of `__readline`, each with any bytes in its buffer before, return these lines and then
null. -/
def CallsReturn (bufsz : ℕ) (file : List UInt8) : List (List UInt8) → Prop
  | [] => file = []
  | line :: lines => file ≠ [] ∧ ∀ buf, buf.length = bufsz →
    (readline bufsz (buf, file)).1 = line ∧ CallsReturn bufsz (readline bufsz (buf, file)).2.2 lines

/-- A carriage return in front of the last byte, which `__readline` takes for the end of the line. -/
def CutsReturn (line : List UInt8) : Prop := 2 ≤ line.length ∧ (line)[line.length - 2]? = some 13

instance (line : List UInt8) : Decidable (CutsReturn line) := instDecidableAnd

/-- The calls that return these lines do so when they hand the buffer on. -/
theorem CallsReturn.readLines {bufsz fuel : ℕ} {lines : List (List UInt8)} {s : List UInt8 × List UInt8}
    (h : CallsReturn bufsz s.2 lines) (hpos : 0 < bufsz) (hbuf : s.1.length = bufsz)
    (hfuel : lines.length < fuel) :
    readLines bufsz fuel s = some lines := by
  induction lines generalizing s fuel with
  | nil =>
    cases fuel with
    | zero => cases hfuel
    | succ fuel => exact if_pos h
  | cons line lines ih =>
    cases fuel with
    | zero => cases hfuel
    | succ fuel =>
      obtain ⟨hfile, hcalls⟩ := h
      obtain ⟨hline, hrest⟩ := hcalls s.1 hbuf
      have hnext := ih hrest (readline_length hbuf hpos).2 (Nat.lt_of_succ_lt_succ hfuel)
      simp only [DasEdge.Board.readLines, if_neg hfile, hnext, Option.map_some, hline]

/-- The first line of a file that has a line feed. -/
theorem linePieces_append {line : List UInt8} (h : 10 ∉ line) (rest : List UInt8) :
    linePieces (line ++ 10 :: rest) = (line ++ [10]) :: linePieces rest := by
  induction line with
  | nil => rw [List.nil_append, linePieces, if_pos rfl, List.nil_append]
  | cons c line ih =>
    obtain ⟨hc, hline⟩ := (List.mem_cons.not.trans not_or).mp h
    rw [List.cons_append, linePieces, if_neg (Ne.symm hc), ih hline]
    rfl

/-- A file without line feeds is one line. -/
theorem linePieces_open {line : List UInt8} (h : 10 ∉ line) (hne : line ≠ []) :
    linePieces line = [line] := by
  induction line with
  | nil => exact absurd rfl hne
  | cons c line ih =>
    obtain ⟨hc, hline⟩ := (List.mem_cons.not.trans not_or).mp h
    rw [linePieces, if_neg (Ne.symm hc)]
    cases line with
    | nil => rfl
    | cons d line => rw [ih hline (List.cons_ne_nil _ _)]

/-- The text of a line that a line feed ends. -/
theorem pieceText_append (line : List UInt8) : pieceText (line ++ [10]) = trimReturn line := by
  rw [pieceText, List.getLast?_concat, if_pos rfl, List.dropLast_concat]

/-- The text of a line that no line feed ends. -/
theorem pieceText_open {line : List UInt8} (h : 10 ∉ line) : pieceText line = line :=
  if_neg fun hlast => h (List.mem_of_getLast? hlast)

/-- What is open at the end of a file is open at the end of what follows a line feed. -/
theorem openLine_append (line rest : List UInt8) : openLine (line ++ 10 :: rest) = openLine rest := by
  induction line with
  | nil => rw [List.nil_append, openLine, if_pos List.mem_cons_self]
  | cons c line ih => rw [List.cons_append, openLine, if_pos (by simp), ih]

/-- A file without line feeds is open. -/
theorem openLine_open {line : List UInt8} (h : 10 ∉ line) : openLine line = line := by
  cases line with
  | nil => rfl
  | cons c line => rw [openLine, if_neg h]

/-- What is read of a line that no line feed ends: the line and the bytes of the buffer behind it,
up to a zero. -/
theorem readline_open_eq {bufsz : ℕ} {line : List UInt8} (buf : List UInt8)
    (hclean : ∀ b ∈ line, b ≠ 0 ∧ b ≠ 10) (hne : line ≠ [])
    (hfits : line.length ≤ bufsz - 1) :
    (readline bufsz (buf, line)).1 =
      cString (if CutsReturn line then ((line ++ buf.drop line.length).set (bufsz - 1) 0).set
      (line.length - 2) 0
        else (line ++ buf.drop line.length).set (bufsz - 1) 0) := by
  have hlength := List.length_pos_iff.mpr hne
  have hindex := lineEnd_of_clean fun b hb => (hclean b hb).2
  have hget : ∀ k < line.length, ((line ++ buf.drop line.length).set (bufsz - 1) 0)[k]? =
      (line)[k]? := by
    intro k hk
    rw [List.getElem?_set_ne (by omega), List.getElem?_append_left hk]
  have hfeed : ¬ (1 ≤ line.length ∧
      ((line ++ buf.drop line.length).set (bufsz - 1) 0)[line.length - 1]? = some 10) := by
    rintro ⟨-, hlast⟩
    rw [hget _ (by omega)] at hlast
    exact (hclean 10 (List.mem_of_getElem? hlast)).2 rfl
  have hcuts : (2 ≤ line.length ∧
    ((line ++ buf.drop line.length).set (bufsz - 1) 0)[line.length - 2]? = some 13) ↔
      CutsReturn line := and_congr_right fun htwo => by rw [hget _ (by omega)]
  simp only [readline]
  rw [List.take_of_length_le hfits, hindex, if_neg (Nat.lt_irrefl _), if_neg hfeed]
  simp only [hcuts]

/-- A line that no line feed ends is read right, whatever is in the buffer, exactly when it fills
the buffer and has no carriage return in front of its last byte. -/
theorem readline_open {bufsz : ℕ} {line : List UInt8} (hclean : ∀ b ∈ line, b ≠ 0 ∧ b ≠ 10)
    (hne : line ≠ [])
    (hfits : line.length ≤ bufsz - 1) :
    (∀ buf, buf.length = bufsz → (readline bufsz (buf, line)).1 = line) ↔ line.length = bufsz - 1 ∧
      ¬ CutsReturn line := by
  have hlength := List.length_pos_iff.mpr hne
  constructor
  · intro hall
    have hkeeps : ¬ CutsReturn line := by
      intro hcuts
      have hread := hall (List.replicate bufsz 0) List.length_replicate
      rw [readline_open_eq _ hclean hne hfits, if_pos hcuts] at hread
      have hshort := cString_length (List.getElem?_set_self (i := line.length - 2)
        (l := (line ++ (List.replicate bufsz 0).drop line.length).set (bufsz - 1) 0) (a := 0)
        (by rw [List.length_set, List.length_append]; omega))
      rw [hread] at hshort
      omega
    refine ⟨?_, hkeeps⟩
    by_contra hother
    -- a byte of the buffer that is no zero stays behind the line
    obtain ⟨k, hk⟩ : ∃ k, bufsz = line.length + (k + 2) := ⟨bufsz - line.length - 2, by omega⟩
    have hread := hall (List.replicate bufsz 1) List.length_replicate
    have hbuf : (line ++ (List.replicate bufsz 1).drop line.length).set (bufsz - 1) 0 =
        line ++ 1 :: (List.replicate (k + 1) 1).set k 0 := by
      rw [List.drop_replicate, show bufsz - line.length = k + 1 + 1 by omega, List.replicate_succ,
        List.set_append_right _ _ (by omega), show bufsz - 1 - line.length = k + 1 by
        omega, List.set_cons_succ]
    rw [readline_open_eq _ hclean hne hfits, if_neg hkeeps, hbuf, cString,
      List.takeWhile_append_of_pos (fun b hb => by simpa using (hclean b hb).1)] at hread
    have hsame := congrArg List.length hread
    simp at hsame
  · rintro ⟨hfull, hkeeps⟩ buf hbuf
    obtain ⟨last, hlast⟩ : ∃ last, buf.drop line.length = [last] := by
      refine List.length_eq_one_iff.mp ?_
      rw [List.length_drop]
      omega
    rw [readline_open_eq _ hclean hne hfits, if_neg hkeeps, hlast, ← hfull,
      List.set_append_right _ _ (Nat.le_refl _),
      Nat.sub_self, List.set_cons_zero]
    exact cString_append (fun b hb => (hclean b hb).1) []

/-- The lines of a file come back, each from its own bytes alone, exactly when the file ends with a
line feed, or its last line fills the buffer and has no carriage return in front of its last byte.
-/
theorem fileLines_iff {bufsz : ℕ} (hpos : 0 < bufsz) (file : List UInt8) (hzero : 0 ∉ file)
    (hshort : ∀ piece ∈ linePieces file, piece.length < bufsz) :
    CallsReturn bufsz file (fileLines file) ↔
      openLine file = [] ∨ (openLine file).length = bufsz - 1 ∧ ¬ CutsReturn (openLine file) := by
  induction hlength : file.length using Nat.strong_induction_on generalizing file with
  | _ length ih =>
    by_cases hfeed : 10 ∈ file
    · obtain ⟨line, rest, rfl, hline⟩ := List.eq_append_cons_of_mem hfeed
      rw [linePieces_append hline] at hshort
      obtain ⟨hfirst, hrest⟩ := List.forall_mem_cons.mp hshort
      rw [List.length_append, List.length_singleton] at hfirst
      have hclean : ∀ b ∈ line, b ≠ 0 ∧ b ≠ 10 := fun b hb =>
        ⟨fun h => hzero (List.mem_append_left _ (h ▸ hb)), fun h => hline (h ▸ hb)⟩
      have hread := fun buf => @readline_terminated bufsz line buf rest hclean (by omega)
      rw [fileLines, linePieces_append hline, List.map_cons, pieceText_append, openLine_append]
      rw [← ih rest.length (by rw [← hlength]; simp; omega) rest
        (fun h => hzero (by simp [h])) hrest rfl]
      constructor
      · rintro ⟨-, hcalls⟩
        obtain ⟨-, hcalls⟩ := hcalls (List.replicate bufsz 0) List.length_replicate
        rwa [(hread _).2] at hcalls
      · intro hcalls
        refine ⟨by simp, fun buf _ => ⟨(hread buf).1, ?_⟩⟩
        rw [(hread buf).2]
        exact hcalls
    · rw [openLine_open hfeed]
      by_cases hne : file = []
      · subst hne
        exact iff_of_true rfl (Or.inl rfl)
      · have hclean : ∀ b ∈ file, b ≠ 0 ∧ b ≠ 10 :=
          fun b hb => ⟨fun h => hzero (h ▸ hb), fun h => hfeed (h ▸ hb)⟩
        rw [linePieces_open hfeed hne] at hshort
        have hfits := hshort file List.mem_cons_self
        rw [fileLines, linePieces_open hfeed hne, List.map_singleton, pieceText_open hfeed,
          or_iff_right hne,
          ← readline_open hclean hne (by omega)]
        constructor
        · rintro ⟨-, hcalls⟩ buf hbuf
          exact (hcalls buf hbuf).1
        · intro hreads
          refine ⟨hne, fun buf hbuf => ⟨hreads buf hbuf, ?_⟩⟩
          have hindex := lineEnd_of_clean fun b hb => (hclean b hb).2
          simp only [CallsReturn, readline,
            List.take_of_length_le (show file.length ≤ bufsz - 1 by omega), hindex,
            List.drop_length]

/-- Three lines, each with its end. -/
def cfgLinesWhole : List UInt8 := [97, 98, 99, 13, 10, 10, 100, 101, 10]

/-- A text, an empty line and another text are read. -/
theorem fileLines_whole : CallsReturn 64 cfgLinesWhole (fileLines cfgLinesWhole) :=
  (fileLines_iff (by decide) cfgLinesWhole (by decide) (by decide)).mpr (Or.inl (by decide))

/-- Two lines, the second one with no line feed behind it. -/
def cfgLinesOpen : List UInt8 := [97, 98, 99, 10, 100, 101]

/-- A byte of the first line is read again behind the second one. -/
theorem not_fileLines_open : ¬ CallsReturn 64 cfgLinesOpen (fileLines cfgLinesOpen) := by
  intro hcalls
  have hread : readLines 64 3 (List.replicate 64 0, cfgLinesOpen) = _ :=
    CallsReturn.readLines hcalls (by decide) (by decide) (by decide)
  revert hread
  decide

end DasEdge.Board
