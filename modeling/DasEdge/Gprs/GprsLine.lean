import DasEdge.Gprs.GprsHelper

/-!
# A line of a modem

What the parser makes of the bytes of a line, without an event that gets late. Between two bytes the
state of the parser is that of the bytes of the unfinished line: it has received the event whose
text the line begins with. The last byte records the code of the line, or hands the line to the
parser of its event.
-/

namespace DasEdge.Gprs

open DasEdge.Library

/-- The registered event that a line begins with. -/
def lineEvt (line : List UInt8) : Option GprsEvt :=
  gprsEvts.find? fun e => (szEvt e).any fun text => decide (text <+: line)

/-- The code that a line ends in. -/
def lineCode (line : List UInt8) : Option GprsCode :=
  [GprsCode.ok, GprsCode.error].find? fun code => decide (szCode code <:+ line)

/-- What is announced behind the text of an event: numbers, and for the time `"%d/%d/%d,%d:%d:%d`. -/
def evtFields : GprsEvt → List ScanItem
  | .cops => []
  | .csq => [.int, .char 0x2C, .int]
  | .creg => [.int, .char 0x2C, .int]
  | .mux => [.int]
  | .nwtime => [.char 0x22, .int, .char 0x2F, .int, .char 0x2F, .int, .char 0x2C, .int, .char 0x3A,
    .int, .char 0x3A, .int]
  | .sednAck => [.int, .char 0x2C, .int, .char 0x2C, .int]
  | .ip => []

/-- How many numbers a line of an event has at least. -/
def evtNumbers : GprsEvt → ℕ
  | .cops => 0
  | .csq => 2
  | .creg => 2
  | .mux => 1
  | .nwtime => 6
  | .sednAck => 1
  | .ip => 0

/-- The numbers in a line of an event. -/
def evtScan (e : GprsEvt) (text : List UInt8) : List ℤ :=
  sscanfInts (scanChars ((szEvt e).getD []) ++ evtFields e) text

/-- The parser of an event accepts a line: when the line has the announced format, its numbers are
stored. -/
def Accepted (e : GprsEvt) (text : List UInt8) (stored : List ℤ) : Prop :=
  evtNumbers e ≤ (evtScan e text).length → evtScan e text <+: stored

/-- A byte that comes before an event is late. -/
def onTime (byte : UInt8) : GprsInput where
  byte := byte
  late := false

/-- Every event is in the table. -/
theorem mem_gprsEvts (e : GprsEvt) : e ∈ gprsEvts := by
  cases e <;> decide

/-- The length of an event's text is in the table. -/
theorem btLen_eq {e : GprsEvt} {text : List UInt8} (h : szEvt e = some text) :
    btLen e = text.length := by
  cases e <;> cases h <;> rfl

/-- An event has a text of some letters in a line. -/
theorem szEvt_line {e : GprsEvt} {text : List UInt8} (h : szEvt e = some text) :
    2 < text.length ∧ IsLine text := by
  cases e <;> cases h <;> decide +kernel

/-- No text of an event begins with that of another one. -/
theorem szEvt_begins {e e' : GprsEvt} {text text' : List UInt8} (h : szEvt e = some text)
    (h' : szEvt e' = some text')
    (hbegins : text <+: text') : e = e' := by
  have hall : ∀ e ∈ gprsEvts, ∀ e' ∈ gprsEvts,
      ((szEvt e).any fun text => (szEvt e').any fun text' => decide (text <+: text')) = true →
        e = e' := by decide
  apply hall e (mem_gprsEvts e) e' (mem_gprsEvts e')
  rw [h, h']
  exact decide_eq_true hbegins

/-- A line begins with the text of at most one event. -/
theorem lineEvt_eq_some {line : List UInt8} {e : GprsEvt} :
    lineEvt line = some e ↔ ∃ text, szEvt e = some text ∧ text <+: line := by
  constructor
  · intro h
    rw [lineEvt] at h
    have hfound := List.find?_some h
    rw [Option.any_eq_true] at hfound
    obtain ⟨text, htext, hbegins⟩ := hfound
    exact ⟨text, htext, of_decide_eq_true hbegins⟩
  · rintro ⟨text, htext, hbegins⟩
    cases hfind : lineEvt line with
    | none =>
      have hnone := List.find?_eq_none.mp hfind e (mem_gprsEvts e)
      rw [htext] at hnone
      exact absurd (decide_eq_true hbegins) hnone
    | some e' =>
      rw [lineEvt] at hfind
      have hfound := List.find?_some hfind
      rw [Option.any_eq_true] at hfound
      obtain ⟨text', htext', hfound⟩ := hfound
      have hbegins' := of_decide_eq_true hfound
      rcases List.prefix_or_prefix_of_prefix hbegins hbegins' with hle | hle
      · rw [szEvt_begins htext htext' hle]
      · rw [szEvt_begins htext' htext hle]

/-- A line goes on with the event that it begins with. -/
theorem lineEvt_append {text : List UInt8} {e : GprsEvt} (h : lineEvt text = some e)
    (more : List UInt8) :
    lineEvt (text ++ more) = some e := by
  obtain ⟨evtText, hevt, hbegins⟩ := lineEvt_eq_some.mp h
  exact lineEvt_eq_some.mpr ⟨evtText, hevt, hbegins.trans (List.prefix_append text more)⟩

/-- A byte more is the beginning of an event when the bytes are its text. -/
theorem lineEvt_concat {text : List UInt8} {b : UInt8} {e : GprsEvt} (h : lineEvt text = none) :
    lineEvt (text ++ [b]) = some e ↔ szEvt e = some (text ++ [b]) := by
  rw [lineEvt_eq_some]
  constructor
  · rintro ⟨evtText, hevt, hbegins⟩
    rcases List.prefix_concat_iff.mp hbegins with rfl | hshort
    · exact hevt
    · have hsome := lineEvt_eq_some.mpr ⟨evtText, hevt, hshort⟩
      rw [h] at hsome
      cases hsome
  · intro hevt
    exact ⟨_, hevt, List.prefix_refl _⟩

/-- The end of a line is in no text of an event. -/
theorem lineEvt_crlf (line : List UInt8) : lineEvt (line ++ crlf) = lineEvt line := by
  cases h : lineEvt line with
  | some e => exact lineEvt_append h crlf
  | none =>
    rw [Option.eq_none_iff_forall_ne_some]
    intro e he
    obtain ⟨text, htext, hbegins⟩ := lineEvt_eq_some.mp he
    rcases List.prefix_or_prefix_of_prefix hbegins (List.prefix_append line crlf)
      with hshort | ⟨rest, rfl⟩
    · have hsome := lineEvt_eq_some.mpr ⟨text, htext, hshort⟩
      rw [h] at hsome
      cases hsome
    · rw [List.prefix_append_right_inj] at hbegins
      cases rest with
      | nil =>
        have hsome := lineEvt_eq_some.mpr ⟨line ++ [], htext, by rw [List.append_nil]⟩
        rw [h] at hsome
        cases hsome
      | cons c rest =>
        have hc : c = 13 := (List.cons_prefix_cons.mp hbegins).1
        exact ((szEvt_line htext).2 c (List.mem_append_right line List.mem_cons_self)).2.1 hc |>.elim

/-- The state in which the bytes of an unfinished line leave the parser. -/
structure GprsState.Holds (s : GprsState) (text : List UInt8) : Prop where
  rx_eq : s.rx = text
  rcvEvt_iff : ∀ e, s.rcvEvt e = true ↔ lineEvt text = some e
  isEvtParse_eq : ∀ e, s.rcvEvt e = true → s.isEvtParse e = false

/-- No event is received. -/
theorem isRcvAnyEvt_eq_false {s : GprsState} : s.isRcvAnyEvt = false ↔ ∀ e, s.rcvEvt e = false := by
  rw [GprsState.isRcvAnyEvt, List.any_eq_false]
  constructor
  · intro h e
    exact Bool.eq_false_iff.mpr (h e (mem_gprsEvts e))
  · intro h e _
    exact Bool.eq_false_iff.mp (h e)

/-- No event is received while the line begins with none. -/
theorem GprsState.Holds.rcvEvt_eq_false {s : GprsState} {text : List UInt8} (h : s.Holds text)
    (hnone : lineEvt text = none)
    (e : GprsEvt) : s.rcvEvt e = false := by
  rw [Bool.eq_false_iff]
  intro hrcv
  have hsome := (h.rcvEvt_iff e).mp hrcv
  rw [hnone] at hsome
  cases hsome

/-- The text of an event is found when the buffer has it. -/
theorem evtMatches_iff {rx : List UInt8} {e : GprsEvt} : evtMatches rx e = true ↔
    szEvt e = some rx := by
  rw [evtMatches, Bool.and_eq_true, decide_eq_true_eq, decide_eq_true_eq]
  cases h : szEvt e with
  | none => simp
  | some text =>
    rw [btLen_eq h, Option.map_some, List.take_length, Option.some_inj]
    exact ⟨fun hmatch => hmatch.2, fun heq => ⟨congrArg List.length heq, heq⟩⟩

/-- When no event is received the parser finds the one that the bytes are the text of. -/
theorem prvParseEvt_holds {s : GprsState} {text : List UInt8} {b : UInt8} (hrx : s.rx = text ++ [b])
    (hrcv : ∀ e, s.rcvEvt e = false) (hnone : lineEvt text = none) :
    (prvParseEvt s).Holds (text ++ [b]) := by
  rw [prvParseEvt]
  split
  · next hfind =>
    refine ⟨hrx, fun e => ?_, fun e he => ?_⟩
    · have hmatch := List.find?_eq_none.mp hfind e (mem_gprsEvts e)
      rw [evtMatches_iff, hrx] at hmatch
      rw [hrcv e, lineEvt_concat hnone]
      exact ⟨fun h => absurd h Bool.false_ne_true, fun h => absurd h hmatch⟩
    · rw [hrcv e] at he
      cases he
  · next e hfind =>
    have hfound := List.find?_some hfind
    rw [evtMatches_iff, hrx] at hfound
    have hline := (lineEvt_concat hnone).mpr hfound
    rw [if_neg (by rw [hrcv e]; exact Bool.false_ne_true)]
    refine ⟨hrx, fun e' => ?_, fun e' he' => ?_⟩
    · rw [hline]
      by_cases heq : e' = e
      · simp [heq]
      · simp [heq, hrcv e', Ne.symm heq]
    · by_cases heq : e' = e
      · simp [heq]
      · simp [heq, hrcv e'] at he'

/-- A byte is stored inside the buffer. -/
theorem GprsState.Holds.room {s : GprsState} {text : List UInt8} {b : UInt8} (h : s.Holds text)
    (hsize : (text ++ [b]).length < rxBufferSize) : s.rx.length + 1 < rxBufferSize := by
  rwa [h.rx_eq, ← @List.length_singleton _ b, ← List.length_append]

/-- Only the event that the line begins with is received. -/
theorem GprsState.Holds.rcvEvt_of_ne {s : GprsState} {text : List UInt8} {e e' : GprsEvt}
    (h : s.Holds text)
    (hline : lineEvt text = some e) (hne : e' ≠ e) : s.rcvEvt e' = false := by
  rw [Bool.eq_false_iff]
  intro hrcv
  have hsame := (h.rcvEvt_iff e').mp hrcv
  rw [hline] at hsame
  exact hne (Option.some.inj hsame).symm

/-- A byte is received in a buffer that is not full. -/
theorem GprsState.Holds.receive {s : GprsState} {text : List UInt8} (h : s.Holds text) (b : UInt8)
    (hsize : (text ++ [b]).length < rxBufferSize) : (receiveByte s b).Holds (text ++ [b]) := by
  have hroom : ¬ rxBufferSize ≤ s.rx.length + 1 := Nat.not_le_of_lt (h.room hsize)
  have hrx : s.rx ++ [b] = text ++ [b] := by rw [h.rx_eq]
  rw [receiveByte, if_neg hroom, hrx]
  split
  · next hnew =>
    have hrcv := isRcvAnyEvt_eq_false.mp hnew.1
    have hnone : lineEvt text = none := by
      rw [Option.eq_none_iff_forall_ne_some]
      intro e he
      have htrue : s.rcvEvt e = true := (h.rcvEvt_iff e).mpr he
      exact absurd htrue (Bool.eq_false_iff.mp (hrcv e))
    exact prvParseEvt_holds rfl hrcv hnone
  · next hold =>
    refine ⟨rfl, fun e => ?_, h.isEvtParse_eq⟩
    cases hline : lineEvt text with
    | some e' => rw [lineEvt_append hline, ← hline, h.rcvEvt_iff]
    | none =>
      have hrcv := h.rcvEvt_eq_false hline
      have hshort : (text ++ [b]).length < 2 := by
        rw [not_and_or, isRcvAnyEvt_eq_false] at hold
        rcases hold with hany | hlen
        · exact absurd hrcv hany
        · exact Nat.not_le.mp hlen
      rw [hrcv e, lineEvt_concat hline]
      refine ⟨fun hf => absurd hf Bool.false_ne_true, fun hevt => ?_⟩
      have hlong := (szEvt_line hevt).1
      omega

/-- At the beginning of a line no event is received. -/
theorem holds_nil {s : GprsState} (hrx : s.rx = []) (hrcv : ∀ e, s.rcvEvt e = false) : s.Holds [] where
  rx_eq := hrx
  rcvEvt_iff e := by
    rw [hrcv e]
    exact ⟨fun h => absurd h Bool.false_ne_true, fun h => absurd h (by cases e <;> decide)⟩
  isEvtParse_eq e h := by
    rw [hrcv e] at h
    cases h

/-- A line with the text of an event in front begins with its first character. -/
theorem exists_of_lineEvt {text : List UInt8} {e : GprsEvt} (h : lineEvt text = some e) :
    ∃ rest, text = 0x2B :: rest := by
  obtain ⟨evtText, hevt, more, rfl⟩ := lineEvt_eq_some.mp h
  cases e <;> cases hevt <;> exact ⟨_, rfl⟩

/-- What the parser of an event does with a line: that of the operators reads the element before the
buffer, that of the time looks for another text, and the others store the numbers. -/
structure ParserMeets (e : GprsEvt) (parse : List UInt8 → Option (List ℤ)) : Prop where
  cops : e = .cops → ∀ text, lineEvt text = some e → parse text = none
  others : e ≠ .cops → ∀ text, lineEvt text = some e → ∃ stored, parse text = some stored ∧
    (Accepted e text stored ↔ (e = .nwtime → (evtScan .nwtime text).length < evtNumbers .nwtime))

/-- A parser that reads what is announced, and perhaps more, accepts each line. -/
theorem parserMeets_of_scan {e : GprsEvt} {parse : List UInt8 → List ℤ} (hcops : e ≠ .cops)
    (hnwtime : e ≠ .nwtime)
    (hparse : ∀ text, evtScan e text <+: parse text) : ParserMeets e fun text => some (parse text) where
  cops h := absurd h hcops
  others _ text _ := ⟨_, rfl, fun _ h => absurd h hnwtime, fun _ _ => hparse text⟩

/-- The text that the parser of the time looks for is not that of the event. -/
theorem scanNwtime_plus (rest : List UInt8) : scanNwtime (0x2B :: rest) = [] := by
  have hfirst (items : List ScanItem) : sscanfInts (nwtimeFormat ++ items) (0x2B :: rest) = [] := rfl
  rw [scanNwtime, hfirst, hfirst]
  rfl

/-- The parsers of the events with a text. -/
theorem evtParser_eq {e : GprsEvt} (he : szEvt e ≠ none) :
    ∃ parse, evtParser e = parseLine e parse ∧ ParserMeets e parse := by
  cases e with
  | cops =>
    refine ⟨fun text => copsName none 0 false (text.takeWhile (· ≠ 0)), rfl, fun _ text htext => ?_,
      fun h => absurd rfl h⟩
    obtain ⟨rest, rfl⟩ := exists_of_lineEvt htext
    rfl
  | csq => exact ⟨_, rfl, parserMeets_of_scan (by decide) (by decide) fun text =>
    sscanfInts_append _ [.char 13, .char 10] text⟩
  | creg => exact ⟨_, rfl, parserMeets_of_scan (by decide) (by decide) fun text =>
    sscanfInts_append _ [.char 13, .char 10] text⟩
  | mux => exact ⟨_, rfl, parserMeets_of_scan (by decide) (by decide) fun text =>
    sscanfInts_append _ [.char 13, .char 10] text⟩
  | nwtime =>
    refine ⟨fun text => some (scanNwtime text), rfl, fun h => (by cases h),
      fun _ text htext => ⟨[], ?_, ?_⟩⟩
    · obtain ⟨rest, rfl⟩ := exists_of_lineEvt htext
      rw [scanNwtime_plus]
    · constructor
      · intro haccepted _
        by_contra hmany
        have hempty := List.prefix_nil.mp (haccepted (Nat.not_lt.mp hmany))
        rw [hempty] at hmany
        exact hmany (by decide)
      · intro hfew hmany
        exact absurd (hfew rfl) (Nat.not_lt.mpr hmany)
  | sednAck =>
    exact ⟨_, rfl, parserMeets_of_scan (by decide) (by decide) fun text => List.prefix_refl _⟩
  | ip => exact absurd rfl he

/-- No parser is called when no event is received. -/
theorem parseEvts_none {late : Bool} {evts : List GprsEvt} {s : GprsState}
    (hrcv : ∀ e ∈ evts, s.rcvEvt e = false) :
    parseEvts late evts s = some ([], s) := by
  induction evts with
  | nil => rfl
  | cons e evts ih =>
    rw [List.forall_mem_cons] at hrcv
    rw [parseEvts, hrcv.1, Bool.false_and, if_neg Bool.false_ne_true, ih hrcv.2]

/-- Only the parser of the event that is received is called, when it leaves no other one received. -/
theorem parseEvts_one {late : Bool} {e : GprsEvt} {evts : List GprsEvt} {s : GprsState}
    (hmem : e ∈ evts) (hnodup : evts.Nodup)
    (hrcv : s.rcvEvt e = true) (hparse : s.isEvtParse e = false)
    (hother : ∀ e', e' ≠ e → s.rcvEvt e' = false)
    (hleft : ∀ r, evtParser e late s = some r → ∀ e', e' ≠ e → r.2.rcvEvt e' = false) :
    parseEvts late evts s = evtParser e late s := by
  induction evts with
  | nil => cases hmem
  | cons e' evts ih =>
    rw [List.nodup_cons] at hnodup
    rw [parseEvts]
    by_cases heq : e' = e
    · subst heq
      rw [hrcv, hparse, Bool.not_false, Bool.and_true, if_pos rfl]
      cases hresult : evtParser e' late s with
      | none => rfl
      | some r =>
        have hrest : parseEvts late evts r.2 = some ([], r.2) := by
          apply parseEvts_none
          intro e'' he''
          apply hleft r hresult e''
          rintro rfl
          exact hnodup.1 he''
        rw [Option.bind_some, hrest, Option.map_some, List.append_nil]
    · rw [hother e' heq, Bool.false_and, if_neg Bool.false_ne_true,
        ih ((List.mem_cons.mp hmem).resolve_left (Ne.symm heq)) hnodup.2]

/-- The parser of the line's event is the one that is called. -/
theorem GprsState.Holds.parseEvts_eq {s : GprsState} {text : List UInt8} {e : GprsEvt}
    (h : s.Holds text)
    (hline : lineEvt text = some e) :
    ∃ parse, ParserMeets e parse ∧ parseEvts false parserOrder s = parseLine e parse false s := by
  obtain ⟨evtText, hevt, -⟩ := lineEvt_eq_some.mp hline
  have hsome : szEvt e ≠ none := by
    rw [hevt]
    exact Option.some_ne_none _
  have hmem : e ∈ parserOrder := by
    cases e with
    | ip => exact absurd rfl hsome
    | _ => decide
  have hrcv : s.rcvEvt e = true := (h.rcvEvt_iff e).mpr hline
  have hother (e' : GprsEvt) (hne : e' ≠ e) : s.rcvEvt e' = false := h.rcvEvt_of_ne hline hne
  obtain ⟨parse, hparser, hmeets⟩ := evtParser_eq hsome
  refine ⟨parse, hmeets, ?_⟩
  rw [← hparser]
  refine parseEvts_one hmem (by decide) hrcv (h.isEvtParse_eq e hrcv) hother fun r hr e' hne => ?_
  rw [hparser, parseLine] at hr
  split at hr
  · split at hr
    · obtain ⟨stored, -, rfl⟩ := Option.map_eq_some_iff.mp hr
      exact (Function.update_of_ne hne _ _).trans (hother e' hne)
    · cases hr
  · rw [← Option.some.inj hr]
    exact hother e' hne

/-- A byte inside a line is stored. -/
theorem gprsByte_inside {s : GprsState} {text : List UInt8} {b : UInt8} (h : s.Holds text)
    (hsize : (text ++ [b]).length < rxBufferSize) (hend : ¬ crlf <:+ text ++ [b]) :
    ∃ s', gprsByte s (onTime b) = some ([], s') ∧ s'.Holds (text ++ [b]) := by
  have hroom : s.rx.length < rxBufferSize := Nat.lt_of_succ_lt (h.room hsize)
  have hreceive := h.receive b hsize
  have hparse : parseEvts false parserOrder (receiveByte s b) = some ([], receiveByte s b) := by
    cases hline : lineEvt (text ++ [b]) with
    | none => exact parseEvts_none fun e _ => hreceive.rcvEvt_eq_false hline e
    | some e =>
      obtain ⟨parse, -, hparse⟩ := hreceive.parseEvts_eq hline
      rw [hparse, parseLine, hreceive.rx_eq, if_neg fun hc => hend hc.2]
      rfl
  refine ⟨receiveByte s b, ?_, hreceive⟩
  rw [gprsByte, if_pos hroom, onTime, hparse, Option.map_some, hreceive.rx_eq,
    if_neg fun hc => hend hc.2]

/-- The code at the end of a line. -/
theorem prvParseCode_line (line : List UInt8) : prvParseCode (line ++ crlf) = lineCode line := by
  have htake : (line ++ crlf).take ((line ++ crlf).length - 2) = line := by
    rw [List.length_append]
    exact List.take_left
  rw [prvParseCode, htake, lineCode]

/-- The last byte of a line without an event records its code. -/
theorem gprsByte_code {s : GprsState} {text line : List UInt8} {b : UInt8} (h : s.Holds text)
    (hsize : (text ++ [b]).length < rxBufferSize) (hend : text ++ [b] = line ++ crlf) (hline : lineEvt line = none) :
    ∃ s', gprsByte s (onTime b) = some ((lineCode line).toList.map .code, s') ∧ s'.Holds [] := by
  have hroom : s.rx.length < rxBufferSize := Nat.lt_of_succ_lt (h.room hsize)
  have hreceive := h.receive b hsize
  rw [hend] at hreceive
  have hrcv := hreceive.rcvEvt_eq_false (by rw [lineEvt_crlf, hline])
  have hparse := @parseEvts_none false parserOrder (receiveByte s b) fun e _ => hrcv e
  have hcode : gprsByte s (onTime b) = some (parseCodeLine (receiveByte s b)) := by
    rw [gprsByte, if_pos hroom, onTime, hparse, Option.map_some,
      if_pos ⟨isRcvAnyEvt_eq_false.mpr hrcv, by rw [hreceive.rx_eq]; exact List.suffix_append line crlf⟩, List.nil_append]
  rw [hcode, parseCodeLine, hreceive.rx_eq, prvParseCode_line]
  cases lineCode line with
  | none => exact ⟨_, rfl, holds_nil rfl hrcv⟩
  | some code => exact ⟨_, rfl, holds_nil rfl hrcv⟩

/-- The last byte of a line hands it to the parser of its event; that of the operators does not
return. -/
theorem gprsByte_evt {s : GprsState} {text line : List UInt8} {b : UInt8} {e : GprsEvt}
    (h : s.Holds text)
    (hsize : (text ++ [b]).length < rxBufferSize) (hend : text ++ [b] = line ++ crlf)
    (hline : lineEvt line = some e) :
    (e = .cops → gprsByte s (onTime b) = none) ∧
      (e ≠ .cops → ∃ stored s', gprsByte s (onTime b) = some ([.evt e (line ++ crlf) stored], s') ∧
        s'.Holds [] ∧
        (Accepted e (line ++ crlf) stored ↔
          (e = .nwtime → (evtScan .nwtime (line ++ crlf)).length < evtNumbers .nwtime))) := by
  have hroom : s.rx.length < rxBufferSize := Nat.lt_of_succ_lt (h.room hsize)
  have hreceive := h.receive b hsize
  rw [hend] at hreceive hsize
  have hevt : lineEvt (line ++ crlf) = some e := lineEvt_append hline crlf
  obtain ⟨parse, hmeets, hparse⟩ := hreceive.parseEvts_eq hevt
  obtain ⟨evtText, hevtText, hbegins⟩ := lineEvt_eq_some.mp hline
  have hlength : btLen e < (line ++ crlf).length ∧ crlf <:+ line ++ crlf := by
    refine ⟨?_, List.suffix_append line crlf⟩
    rw [btLen_eq hevtText, List.length_append]
    exact Nat.lt_of_le_of_lt hbegins.length_le (Nat.lt_add_of_pos_right (by decide))
  rw [gprsByte, if_pos hroom, onTime, hparse, parseLine, hreceive.rx_eq, if_pos hlength, if_pos hsize]
  constructor
  · intro hcops
    rw [hmeets.cops hcops _ hevt]
    rfl
  · intro hcops
    obtain ⟨stored, hstored, haccepted⟩ := hmeets.others hcops _ hevt
    have hrcv (e' : GprsEvt) : Function.update (receiveByte s b).rcvEvt e false e' = false := by
      by_cases heq : e' = e
      · rw [heq, Function.update_self]
      · rw [Function.update_of_ne heq, hreceive.rcvEvt_of_ne hevt heq]
    refine ⟨stored, { receiveByte s b with
      rx := []
      rcvEvt := Function.update (receiveByte s b).rcvEvt e false
      isEvtParse := Function.update (receiveByte s b).isEvtParse e true }, ?_,
      holds_nil rfl hrcv, haccepted⟩
    have hopen : ¬ crlf <:+ ([] : List UInt8) := by decide
    rw [hstored, Option.map_some, Option.map_some, if_neg fun hc => hopen hc.2]

end DasEdge.Gprs
