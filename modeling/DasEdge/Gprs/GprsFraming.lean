import DasEdge.Gprs.GprsLine
import Mathlib.Data.List.Forall2

/-!
# The lines of a modem

What the parser makes of lines that arrive in any reads. A list of operators ends the run, and the
other lines are parsed one after another.
-/

namespace DasEdge.Gprs

open DasEdge.Library

/-- What the thread records. -/
def GprsAct.code? : GprsAct → Option GprsCode
  | .code c => some c
  | .evt _ _ _ => none

/-- What the thread hands to a parser. -/
def GprsAct.evt? : GprsAct → Option (GprsEvt × List UInt8)
  | .code _ => none
  | .evt e text _ => some (e, text)

/-- The codes of the lines are recorded, each line of an event is handed once to its parser, and the
parser accepts it. -/
structure GprsFramed (lines : List (List UInt8)) (acts : List GprsAct) : Prop where
  codes : acts.filterMap GprsAct.code? = lines.filterMap lineCode
  events : acts.filterMap GprsAct.evt? = lines.filterMap fun line => (lineEvt line).map fun e =>
    (e, line ++ crlf)
  accepted : ∀ e text stored, GprsAct.evt e text stored ∈ acts → Accepted e text stored

/-- A line that fits in the buffer with its end, and has no end of a line before. -/
def IsModemLine (line : List UInt8) : Prop :=
  crlfSplit (line ++ crlf) = some (line, []) ∧ (line ++ crlf).length < rxBufferSize

/-- Lines that come in some reads. -/
structure ModemReads where
  lines : List (List UInt8)
  reads : List (List UInt8)
  modemLines : ∀ line ∈ lines, IsModemLine line
  nonempty : ∀ read ∈ reads, read ≠ []
  cut : reads.flatten = textLines lines

/-- The line is no list of operators, no line of an event that ends in a code, and no time. -/
def GprsMeets (line : List UInt8) : Prop :=
  lineEvt line ≠ some .cops ∧ (lineEvt line ≠ none → lineCode line = none) ∧
    (lineEvt line = some .nwtime → (evtScan .nwtime (line ++ crlf)).length < evtNumbers .nwtime)

instance decidableGprsMeets (line : List UInt8) : Decidable (GprsMeets line) :=
  inferInstanceAs (Decidable (_ ∧ (_ → _) ∧ (_ → _)))

/-- The end of a line is not in a part of it. -/
theorem IsModemLine.not_crlf {line text : List UInt8} (h : IsModemLine line)
    (hbegins : text <+: line ++ crlf)
    (hne : text ≠ line ++ crlf) : ¬ crlf <:+ text := by
  rintro ⟨before, rfl⟩
  have hfirst := crlfSplit_first h.1 hbegins
  have hlength := hbegins.length_le
  rw [List.length_append, List.length_append] at hlength
  exact hne (hbegins.eq_of_length (by rw [List.length_append, List.length_append]; omega))

/-- The bytes of a part of a line are stored. -/
theorem gprs_part {line : List UInt8} (hline : IsModemLine line) {s : GprsState}
    {text more : List UInt8} (h : s.Holds text)
    (hbegins : text ++ more <+: line ++ crlf) (hne : text ++ more ≠ line ++ crlf) :
    ∃ outs s', runBlocking gprsByte s (more.map onTime) = some (outs, s') ∧ outs.flatten = [] ∧
      s'.Holds (text ++ more) := by
  induction more generalizing s text with
  | nil => exact ⟨[], s, rfl, rfl, by rwa [List.append_nil]⟩
  | cons b more ih =>
    rw [List.append_cons] at hbegins hne
    have hpart : text ++ [b] <+: line ++ crlf := (List.prefix_append _ more).trans hbegins
    have hpartNe : text ++ [b] ≠ line ++ crlf := by
      intro heq
      rw [heq] at hbegins hne
      exact hne (hbegins.eq_of_length_le (List.prefix_append _ more).length_le)
    have hsize : (text ++ [b]).length < rxBufferSize := Nat.lt_of_le_of_lt hpart.length_le hline.2
    obtain ⟨s₁, hbyte, hholds⟩ := gprsByte_inside h hsize (hline.not_crlf hpart hpartNe)
    obtain ⟨outs, s', hrun, houts, hholds'⟩ := ih hholds hbegins hne
    rw [List.map_cons, runBlocking, hbyte, Option.bind_some, hrun, Option.map_some]
    exact ⟨_, s', rfl, by rw [List.flatten_cons, houts]; rfl, by rwa [List.append_cons]⟩

/-- What the thread does with a line that is no list of operators. -/
def LineActs (line : List UInt8) (acts : List GprsAct) : Prop :=
  (lineEvt line = none ∧ acts = (lineCode line).toList.map .code) ∨
    ∃ e stored, lineEvt line = some e ∧ acts = [.evt e (line ++ crlf) stored] ∧
      (Accepted e (line ++ crlf) stored ↔
      (e = .nwtime → (evtScan .nwtime (line ++ crlf)).length < evtNumbers .nwtime))

/-- A whole line is parsed, unless it is a list of operators. -/
theorem gprs_line {line : List UInt8} (hline : IsModemLine line) {s : GprsState} (h : s.Holds []) :
    (lineEvt line = some .cops → runBlocking gprsByte s ((line ++ crlf).map onTime) = none) ∧
      (lineEvt line ≠ some .cops → ∃ outs s', runBlocking gprsByte s ((line ++ crlf).map onTime) =
        some (outs, s') ∧
        s'.Holds [] ∧ LineActs line outs.flatten) := by
  have hsplit : line ++ crlf = line ++ [13] ++ [10] := by
    rw [List.append_assoc]
    rfl
  have hbegins : [] ++ (line ++ [13]) <+: line ++ crlf := by
    rw [hsplit]
    exact List.prefix_append _ _
  have hne : [] ++ (line ++ [13]) ≠ line ++ crlf := by
    intro heq
    exact absurd (congrArg List.length heq) (by simp [hsplit])
  obtain ⟨outs, s₁, hrun, houts, hholds⟩ := gprs_part hline h hbegins hne
  have hsize : (line ++ [13] ++ [10]).length < rxBufferSize := by
    rw [← hsplit]
    exact hline.2
  rw [List.nil_append] at hholds
  have hlast : runBlocking gprsByte s ((line ++ crlf).map onTime) =
      (gprsByte s₁ (onTime 10)).map fun r => (outs ++ [r.1], r.2) := by
    rw [hsplit, List.map_append, runBlocking_append, hrun, Option.bind_some, List.map_singleton,
      runBlocking]
    cases gprsByte s₁ (onTime 10) with
    | none => rfl
    | some r => rfl
  rw [hlast]
  cases hevt : lineEvt line with
  | none =>
    refine ⟨fun hcops => (by cases hcops), fun _ => ?_⟩
    obtain ⟨s', hbyte, hholds'⟩ := gprsByte_code hholds hsize hsplit.symm hevt
    rw [hbyte]
    refine ⟨_, s', rfl, hholds', .inl ⟨hevt, ?_⟩⟩
    rw [List.flatten_append, houts, List.nil_append, List.flatten_singleton]
  | some e =>
    obtain ⟨hcops, hother⟩ := gprsByte_evt hholds hsize hsplit.symm hevt
    refine ⟨fun heq => by rw [hcops (Option.some.inj heq)]; rfl, fun hneCops => ?_⟩
    obtain ⟨stored, s', hbyte, hholds', haccepted⟩ := hother fun heq => hneCops (by rw [heq])
    rw [hbyte]
    refine ⟨_, s', rfl, hholds', .inr ⟨e, stored, hevt, ?_, haccepted⟩⟩
    rw [List.flatten_append, houts, List.nil_append, List.flatten_singleton]

/-- Lines are parsed one after another, up to the first list of operators. -/
theorem gprs_lines {lines : List (List UInt8)} (hlines : ∀ line ∈ lines, IsModemLine line)
    {s : GprsState} (h : s.Holds []) :
    ((∃ line ∈ lines, lineEvt line = some .cops) →
      runBlocking gprsByte s ((textLines lines).map onTime) = none) ∧
      ((∀ line ∈ lines, lineEvt line ≠ some .cops) →
        ∃ outs s' acts, runBlocking gprsByte s ((textLines lines).map onTime) = some (outs, s') ∧
          List.Forall₂ LineActs lines acts ∧ outs.flatten = acts.flatten) := by
  induction lines generalizing s with
  | nil =>
    refine ⟨fun hcops => ?_, fun _ => ⟨[], s, [], rfl, .nil, rfl⟩⟩
    obtain ⟨line, hline, -⟩ := hcops
    cases hline
  | cons line lines ih =>
    rw [List.forall_mem_cons] at hlines
    obtain ⟨hcops, hother⟩ := gprs_line hlines.1 h
    rw [textLines_cons, List.map_append, runBlocking_append]
    by_cases hfirst : lineEvt line = some .cops
    · refine ⟨fun _ => by rw [hcops hfirst]; rfl, fun hall => ?_⟩
      exact absurd hfirst (hall line List.mem_cons_self)
    · obtain ⟨outs, s₁, hrun, hholds, hacts⟩ := hother hfirst
      obtain ⟨hcopsRest, hotherRest⟩ := ih hlines.2 hholds
      rw [hrun, Option.bind_some]
      constructor
      · rintro ⟨l, hl, hlCops⟩
        have hrest : ∃ line ∈ lines, lineEvt line = some .cops := by
          rcases List.mem_cons.mp hl with rfl | hl
          · exact absurd hlCops hfirst
          · exact ⟨l, hl, hlCops⟩
        rw [hcopsRest hrest]
        rfl
      · intro hall
        obtain ⟨outsRest, s', acts, hrunRest, hactsRest, hflat⟩ :=
          hotherRest fun l hl => hall l (List.mem_cons_of_mem line hl)
        rw [hrunRest]
        exact ⟨_, s', outs.flatten :: acts, rfl,
          .cons hacts hactsRest, by rw [List.flatten_append, hflat, List.flatten_cons]⟩

/-- Some of the values of a list are not more than all of them. -/
theorem filterMap_only_length {α β : Type*} (f : α → Option β) (p : α → Bool) (l : List α) :
    (l.filterMap fun a => if p a then f a else none).length ≤ (l.filterMap f).length := by
  induction l with
  | nil => exact Nat.le_refl _
  | cons a l ih =>
    cases hp : p a <;> cases hf : f a <;> simp [hp, hf] <;> omega

/-- Some of the values of a list are all of them when the others have none. -/
theorem filterMap_only_iff {α β : Type*} (f : α → Option β) (p : α → Bool) (l : List α) :
    (l.filterMap fun a => if p a then f a else none) = l.filterMap f ↔ ∀ a ∈ l, p a = false →
      f a = none := by
  induction l with
  | nil => simp
  | cons a l ih =>
    cases hf : f a with
    | none => simp [hf, ih]
    | some b =>
      cases hp : p a with
      | true => simp [hf, hp, ih]
      | false =>
        -- A value that is left out makes the list shorter.
        have hshort : (l.filterMap fun a => if p a then f a else none) ≠ b :: l.filterMap f := by
          intro heq
          have hlength := filterMap_only_length f p l
          rw [heq, List.length_cons] at hlength
          omega
        simp [hf, hp, hshort]

/-- The codes that are recorded are those of the lines without an event. -/
theorem lineActs_codes {lines : List (List UInt8)} {acts : List (List GprsAct)}
    (h : List.Forall₂ LineActs lines acts) :
    acts.flatten.filterMap GprsAct.code? = lines.filterMap fun line => if (lineEvt line).isNone
      then lineCode line else none := by
  induction h with
  | nil => rfl
  | @cons line acts lines actss hline hrest ih =>
    rw [List.flatten_cons, List.filterMap_append, ih]
    rcases hline with ⟨hevt, rfl⟩ | ⟨e, stored, hevt, rfl, -⟩
    · cases hcode : lineCode line with
      | none => simp [hevt, hcode]
      | some code => simp [hevt, hcode, GprsAct.code?]
    · simp [hevt, GprsAct.code?]

/-- The parsers get the lines of their events. -/
theorem lineActs_events {lines : List (List UInt8)} {acts : List (List GprsAct)}
    (h : List.Forall₂ LineActs lines acts) :
    acts.flatten.filterMap GprsAct.evt? = lines.filterMap fun line => (lineEvt line).map fun e =>
      (e, line ++ crlf) := by
  induction h with
  | nil => rfl
  | @cons line acts lines actss hline hrest ih =>
    rw [List.flatten_cons, List.filterMap_append, ih]
    rcases hline with ⟨hevt, rfl⟩ | ⟨e, stored, hevt, rfl, -⟩
    · cases lineCode line with
      | none => simp [hevt]
      | some code => simp [hevt, GprsAct.evt?]
    · simp [hevt, GprsAct.evt?]

/-- The parsers accept their lines when none of them is a time. -/
theorem lineActs_accepted {lines : List (List UInt8)} {acts : List (List GprsAct)}
    (h : List.Forall₂ LineActs lines acts) :
    (∀ e text stored, GprsAct.evt e text stored ∈ acts.flatten → Accepted e text stored) ↔
      ∀ line ∈ lines, lineEvt line = some .nwtime → (evtScan .nwtime (line ++ crlf)).length <
        evtNumbers .nwtime := by
  induction h with
  | nil => simp
  | cons hline _ ih =>
    rw [List.forall_mem_cons, ← ih, List.flatten_cons]
    rcases hline with ⟨hevt, rfl⟩ | ⟨e, stored, hevt, rfl, haccepted⟩
    · simp [hevt]
    · rw [hevt, Option.some_inj, ← haccepted]
      constructor
      · intro hall
        exact ⟨hall _ _ _ (List.mem_append_left _ (List.mem_singleton_self _)),
          fun e' text' stored' hmem => hall e' text' stored' (List.mem_append_right _ hmem)⟩
      · rintro ⟨hfirst, hrest⟩ e' text' stored' hmem
        rcases List.mem_append.mp hmem with hmem | hmem
        · cases List.mem_singleton.mp hmem
          exact hfirst
        · exact hrest e' text' stored' hmem

/-- The thread reads all bytes of the lines. -/
theorem ModemReads.gprsParseThread_eq (d : ModemReads) (s : GprsState) :
    gprsParseThread s (d.reads.map (·.map onTime)) =
      runBlocking gprsByte s ((textLines d.lines).map onTime) := by
  have hreads : (d.reads.map (·.map onTime)).takeWhile (· ≠ []) = d.reads.map (·.map onTime) := by
    rw [List.takeWhile_eq_self_iff]
    intro read hread
    obtain ⟨bytes, hbytes, rfl⟩ := List.mem_map.mp hread
    have hne : bytes ≠ [] := d.nonempty bytes hbytes
    simpa using hne
  rw [gprsParseThread, hreads, ← d.cut, List.map_flatten]

/-- The lines of a modem, in any reads, are parsed right exactly when none of them is a list of
operators, a line of an event that ends in a code, or a time. -/
theorem gprs_framed_iff (d : ModemReads) :
    (∃ r, gprsParseThread .init (d.reads.map (·.map onTime)) = some r ∧
      GprsFramed d.lines r.1.flatten) ↔
      ∀ line ∈ d.lines, GprsMeets line := by
  obtain ⟨hcops, hother⟩ := gprs_lines d.modemLines (holds_nil (s := .init) rfl fun _ => rfl)
  rw [d.gprsParseThread_eq]
  by_cases hlist : ∃ line ∈ d.lines, lineEvt line = some .cops
  · rw [hcops hlist]
    obtain ⟨line, hline, hevt⟩ := hlist
    constructor
    · rintro ⟨r, hr, -⟩
      cases hr
    · intro hmeets
      exact absurd hevt (hmeets line hline).1
  · have hnone : ∀ line ∈ d.lines, lineEvt line ≠ some .cops :=
      fun line hline hevt => hlist ⟨line, hline, hevt⟩
    obtain ⟨outs, s', acts, hrun, hacts, hflat⟩ := hother hnone
    have hcodes := lineActs_codes hacts
    have haccepted := lineActs_accepted hacts
    have honly := filterMap_only_iff lineCode (fun line => (lineEvt line).isNone) d.lines
    rw [hrun]
    constructor
    · rintro ⟨r, hr, hframed⟩ line hline
      rw [← Option.some.inj hr, hflat] at hframed
      refine ⟨hnone line hline, fun hevt => ?_, haccepted.mp hframed.accepted line hline⟩
      refine honly.mp (hcodes.symm.trans hframed.codes) line hline ?_
      rwa [Option.isNone_eq_false_iff, Option.isSome_iff_ne_none]
    · intro hmeets
      refine ⟨_, rfl, ?_⟩
      rw [hflat]
      refine ⟨?_, lineActs_events hacts, haccepted.mpr fun line hline => (hmeets line hline).2.2⟩
      rw [hcodes, honly]
      intro line hline hevt
      rw [Option.isNone_eq_false_iff, Option.isSome_iff_ne_none] at hevt
      exact (hmeets line hline).2.1 hevt

/-- A time, `+CCLK: "26/01/02,03:04:05+32,0"`. -/
def timeLine : List UInt8 :=
  [0x2B, 0x43, 0x43, 0x4C, 0x4B, 0x3A, 0x20, 0x22, 0x32, 0x36, 0x2F, 0x30, 0x31, 0x2F, 0x30, 0x32,
    0x2C, 0x30, 0x33, 0x3A, 0x30, 0x34,
    0x3A, 0x30, 0x35, 0x2B, 0x33, 0x32, 0x2C, 0x30, 0x22]

/-- The time comes in one read. -/
def timeReads : ModemReads where
  lines := [timeLine]
  reads := [timeLine ++ crlf]
  modemLines := by
    intro line hline
    rw [List.mem_singleton.mp hline]
    exact ⟨by decide +kernel, by decide⟩
  nonempty := by decide
  cut := by decide

/-- The time is handed to its parser, which looks for `^NWTIME: ` and does not set it. -/
theorem gprs_time_rejected :
    ¬ ∃ r, gprsParseThread .init (timeReads.reads.map (·.map onTime)) = some r ∧
      GprsFramed timeReads.lines r.1.flatten := by
  rintro ⟨r, hr, hframed⟩
  have hlines := gprs_lines timeReads.modemLines (holds_nil (s := .init) rfl fun _ => rfl)
  obtain ⟨outs, s', acts, hrun, hacts, hflat⟩ := hlines.2 (by decide)
  rw [timeReads.gprsParseThread_eq, hrun] at hr
  rw [← Option.some.inj hr, hflat] at hframed
  have hfew :=
    (lineActs_accepted hacts).mp hframed.accepted timeLine (List.mem_singleton_self _) (by decide)
  exact absurd hfew (by decide +kernel)

end DasEdge.Gprs
