import DasEdge.Library.GuardedRun
import DasEdge.Library.TextLines
import Mathlib.Data.Int.Notation
import Mathlib.Logic.Function.Basic

/-!
# The parser of modem responses

`__gprsparse_thread` of `gprs_helper.c` and the parsers that it calls, one byte after another. The
bytes of `s_btRxBuffer` before `s_nRxOffset` are kept; no others are looked at. With each byte comes
whether the event that is being received is late by then. No result means an access outside
`s_btRxBuffer`. A null character is not in the formats of `sscanf`, so that no text is read behind
it.
-/

namespace DasEdge.Gprs

open DasEdge.Library

/-- `eGPRS_Code` -/
inductive GprsCode
  | ok
  | error
  deriving DecidableEq

/-- `eGPRS_Evt` -/
inductive GprsEvt
  | cops
  | csq
  | creg
  | mux
  | nwtime
  | sednAck
  | ip
  deriving DecidableEq

/-- `szCode` of `c_xGPRSCodeList` -/
def szCode : GprsCode → List UInt8
  | .ok => [0x4F, 0x4B]
  | .error => [0x45, 0x52, 0x52, 0x4F, 0x52]

/-- `szEvt` of `c_xGPRS_EvtList`: `+COPS: `, `+CSQ: `, `+CGREG: `, `+QIMUX: `, `+CCLK: ` and
`+QISACK: ` -/
def szEvt : GprsEvt → Option (List UInt8)
  | .cops => some [0x2B, 0x43, 0x4F, 0x50, 0x53, 0x3A, 0x20]
  | .csq => some [0x2B, 0x43, 0x53, 0x51, 0x3A, 0x20]
  | .creg => some [0x2B, 0x43, 0x47, 0x52, 0x45, 0x47, 0x3A, 0x20]
  | .mux => some [0x2B, 0x51, 0x49, 0x4D, 0x55, 0x58, 0x3A, 0x20]
  | .nwtime => some [0x2B, 0x43, 0x43, 0x4C, 0x4B, 0x3A, 0x20]
  | .sednAck => some [0x2B, 0x51, 0x49, 0x53, 0x41, 0x43, 0x4B, 0x3A, 0x20]
  | .ip => none

/-- `btLen` of `c_xGPRS_EvtList` -/
def btLen : GprsEvt → ℕ
  | .cops => 7
  | .csq => 6
  | .creg => 8
  | .mux => 8
  | .nwtime => 7
  | .sednAck => 9
  | .ip => 0

/-- The events in the order of `c_xGPRS_EvtList`. -/
def gprsEvts : List GprsEvt := [.cops, .csq, .creg, .mux, .nwtime, .sednAck, .ip]

/-- `RX_BUFFER_SIZE` -/
def rxBufferSize : ℕ := 1400

/-- `s_btRxBuffer` before `s_nRxOffset`, and the flags `s_bRcvCode`, `s_bRcvEvt` and `s_bIsEvtParse`. -/
structure GprsState where
  rx : List UInt8
  rcvCode : GprsCode → Bool
  rcvEvt : GprsEvt → Bool
  isEvtParse : GprsEvt → Bool

/-- `vInitGPRSStatus` -/
def GprsState.init : GprsState where
  rx := []
  rcvCode _ := false
  rcvEvt _ := false
  isEvtParse _ := false

/-- What the thread does with a line: it records a code, or a parser gets the bytes of the buffer
and stores numbers. -/
inductive GprsAct
  | code (code : GprsCode)
  | evt (evt : GprsEvt) (text : List UInt8) (stored : List ℤ)

/-- A byte, and whether more than 200 ms have passed since the beginning of the event. -/
structure GprsInput where
  byte : UInt8
  late : Bool

/-- `prvIsRcvAnyEvt` -/
def GprsState.isRcvAnyEvt (s : GprsState) : Bool := gprsEvts.any s.rcvEvt

/-- The text in the buffer is that of an event, as far as `btLen` says. -/
def evtMatches (rx : List UInt8) (e : GprsEvt) : Bool :=
  decide (btLen e = rx.length) && decide ((szEvt e).map (·.take (btLen e)) = some rx)

/-- `prvParseEvt` -/
def prvParseEvt (s : GprsState) : GprsState :=
  match gprsEvts.find? (evtMatches s.rx) with
  | none => s
  | some e =>
    if s.rcvEvt e then s
    else { s with rcvEvt := Function.update s.rcvEvt e true, isEvtParse := Function.update s.isEvtParse e false }

/-- `prvParseTimeout` -/
def prvParseTimeout (e : GprsEvt) (late : Bool) (s : GprsState) : GprsState :=
  if late then
    { s with rx := [], rcvEvt := Function.update s.rcvEvt e false, isEvtParse := Function.update s.isEvtParse e false }
  else s

/-- What the parsers have in common: at the end of a line the text is parsed, with a null character
behind it. -/
def parseLine (e : GprsEvt) (parse : List UInt8 → Option (List ℤ)) (late : Bool) (s : GprsState) :
    Option (List GprsAct × GprsState) :=
  if btLen e < s.rx.length ∧ crlf <:+ s.rx then
    if s.rx.length < rxBufferSize then
      (parse s.rx).map fun stored =>
        ([.evt e s.rx stored],
          { s with rx := [], rcvEvt := Function.update s.rcvEvt e false, isEvtParse := Function.update s.isEvtParse e true })
    else none
  else some ([], prvParseTimeout e late s)

/-- The items of a format that are characters. -/
def scanChars (text : List UInt8) : List ScanItem := text.map .char

/-- `^NWTIME: "%d/%d/%d,%d:%d:%d` -/
def nwtimeFormat : List ScanItem :=
  scanChars [0x5E, 0x4E, 0x57, 0x54, 0x49, 0x4D, 0x45, 0x3A, 0x20, 0x22] ++
    [.int, .char 0x2F, .int, .char 0x2F, .int, .char 0x2C, .int, .char 0x3A, .int, .char 0x3A, .int]

/-- `,%d"` and the end of the line, behind the time zone. -/
def nwtimeFormatEnd : List ScanItem := [.int, .char 0x2C, .int, .char 0x22, .char 13, .char 10]

/-- The time that `prvParseNWTIME` sets, the year without the century and the time zone with its
sign. -/
def scanNwtime (text : List UInt8) : List ℤ :=
  let east := sscanfInts (nwtimeFormat ++ .char 0x2B :: nwtimeFormatEnd) text
  let west := sscanfInts (nwtimeFormat ++ .char 0x2D :: nwtimeFormatEnd) text
  if 8 ≤ east.length then east else if 8 ≤ west.length then west.modify 6 Neg.neg else []

/-- `prvParseNWTIME` -/
def prvParseNwtime : Bool → GprsState → Option (List GprsAct × GprsState) :=
  parseLine .nwtime fun text => some (scanNwtime text)

/-- `prvParseSendAck` -/
def prvParseSendAck : Bool → GprsState → Option (List GprsAct × GprsState) :=
  parseLine .sednAck fun text =>
    some (sscanfInts (scanChars [0x2B, 0x51, 0x49, 0x53, 0x41, 0x43, 0x4B, 0x3A, 0x20] ++
      [.int, .char 0x2C, .int, .char 0x2C, .int]) text)

/-- The loop of `prvParseCOPS` over the text, with `s_btRxBuffer[i-1]`, the length of the name and
`flag`. -/
def copsName (previous : Option UInt8) (j : ℕ) (flag : Bool) : List UInt8 → Option (List ℤ)
  | [] => some []
  | c :: text =>
    if j < 16 then
      match previous with
      | none => none
      | some p =>
        let flag := flag || (decide (c ≠ 0x22) && decide (p = 0x22))
        if c = 0x22 ∧ p ≠ 0x22 ∧ flag = true then some []
        else if flag then (copsName (some c) (j + 1) flag text).map ((c.toNat : ℤ) :: ·)
        else copsName (some c) j flag text
    else some []

/-- `prvParseCOPS`, which begins with the element before the first one. -/
def prvParseCops : Bool → GprsState → Option (List GprsAct × GprsState) :=
  parseLine .cops fun text => copsName none 0 false (text.takeWhile (· ≠ 0))

/-- `prvParseCSQ` -/
def prvParseCsq : Bool → GprsState → Option (List GprsAct × GprsState) :=
  parseLine .csq fun text =>
    some (sscanfInts (scanChars [0x2B, 0x43, 0x53, 0x51, 0x3A, 0x20] ++ [.int, .char 0x2C, .int,
      .char 13, .char 10]) text)

/-- `prvParseCREG` -/
def prvParseCreg : Bool → GprsState → Option (List GprsAct × GprsState) :=
  parseLine .creg fun text =>
    some (sscanfInts (scanChars [0x2B, 0x43, 0x47, 0x52, 0x45, 0x47, 0x3A, 0x20] ++
      [.int, .char 0x2C, .int, .char 13, .char 10]) text)

/-- `prvParseMux` -/
def prvParseMux : Bool → GprsState → Option (List GprsAct × GprsState) :=
  parseLine .mux fun text =>
    some (sscanfInts (scanChars [0x2B, 0x51, 0x49, 0x4D, 0x55, 0x58, 0x3A, 0x20] ++
      [.int, .char 13, .char 10]) text)

/-- The parser of an event; there is none for the last one. -/
def evtParser : GprsEvt → Bool → GprsState → Option (List GprsAct × GprsState)
  | .cops => prvParseCops
  | .csq => prvParseCsq
  | .creg => prvParseCreg
  | .mux => prvParseMux
  | .nwtime => prvParseNwtime
  | .sednAck => prvParseSendAck
  | .ip => fun _ s => some ([], s)

/-- The order in which the thread calls the parsers. -/
def parserOrder : List GprsEvt := [.cops, .csq, .creg, .sednAck, .mux, .nwtime]

/-- The parsers of the events that have been received are called. -/
def parseEvts (late : Bool) : List GprsEvt → GprsState → Option (List GprsAct × GprsState)
  | [], s => some ([], s)
  | e :: evts, s =>
    if s.rcvEvt e && !s.isEvtParse e then
      (evtParser e late s).bind fun first => (parseEvts late evts first.2).map fun rest =>
        (first.1 ++ rest.1, rest.2)
    else parseEvts late evts s

/-- The code that `prvParseCode` finds at the end of the text before the last two bytes. -/
def prvParseCode (rx : List UInt8) : Option GprsCode :=
  [GprsCode.ok, GprsCode.error].find? fun code => decide (szCode code <:+ rx.take (rx.length - 2))

/-- The end of a line that is no event. -/
def parseCodeLine (s : GprsState) : List GprsAct × GprsState :=
  match prvParseCode s.rx with
  | none => ([], { s with rx := [] })
  | some code => ([.code code], { s with rx := [], rcvCode := Function.update s.rcvCode code true })

/-- A byte is stored, and while no event is received it may begin one. -/
def receiveByte (s : GprsState) (byte : UInt8) : GprsState :=
  let s := { s with rx := if rxBufferSize ≤ s.rx.length + 1 then [] else s.rx ++ [byte] }
  if s.isRcvAnyEvt = false ∧ 2 ≤ s.rx.length then prvParseEvt s else s

/-- A byte of `__gprsparse_thread`. -/
def gprsByte (s : GprsState) (input : GprsInput) : Option (List GprsAct × GprsState) :=
  if s.rx.length < rxBufferSize then
    (parseEvts input.late parserOrder (receiveByte s input.byte)).map fun r =>
      if r.2.isRcvAnyEvt = false ∧
        crlf <:+ r.2.rx then (r.1 ++ (parseCodeLine r.2).1, (parseCodeLine r.2).2) else r
  else none

/-- `__gprsparse_thread`: it ends with a read that has no bytes. -/
def gprsParseThread (s : GprsState) (reads : List (List GprsInput)) :
    Option (List (List GprsAct) × GprsState) :=
  runBlocking gprsByte s (reads.takeWhile (· ≠ [])).flatten

end DasEdge.Gprs
