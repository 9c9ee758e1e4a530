import DasEdge.Sdccp.Hjt212
import Mathlib.Logic.Function.Basic

/-!
# HJ/T 212 reports

The report builders `hjt212_report_real_data`, `hjt212_report_minutes_data`,
`hjt212_report_5minutes_data` and `hjt212_report_hour_data` go over the list of variables from
behind a resume pointer on, put the texts of variables with one nid together, and leave the resume
pointer at the last variable that they reported. The work task calls a builder until the pointer is
null. The four builders differ in the averager, its period and the text of a variable only. A
pointer into the list is a position; the tick stays the same while the reports are built, and so do
the values. The bytes of the packet around the text are left out, and memory is available.
-/

namespace DasEdge.Sdccp

/-- The averagers `xAvgUp`, `xAvgMin`, `xAvg5Min` and `xAvgHour`. -/
inductive UpAverager where
  | up | min | min5 | hour
  deriving DecidableEq

/-- `VarAvg_t`; numbers of floating point are their bits. -/
structure UpAvg where
  time : UInt64
  count : UInt32
  valAvg : UInt64
  valMin : UInt32
  valMax : UInt32
  deriving DecidableEq

/-- A variable with the fields of `ExtData_Up_t` that a report reads. -/
structure UpData where
  bEnable : Bool
  upEnable : Bool
  avg : UpAverager → UpAvg
  szNid : Option (List UInt8)
  szFid : Option (List UInt8)
  usDevType : UInt16
  usDevNum : UInt16
  usProtoType : UInt16

/-- A text that `sprintf` leaves in an array of 50 characters. -/
abbrev Tmp : Type := {text : List UInt8 // text.length < 50}

/-- The settings of a channel, the tick, and what `sprintf` makes of the time of a report and of the
fid and a value of a variable. -/
structure ReportEnv where
  usDevType : UInt16
  usDevNum : UInt16
  MN : List UInt8
  sharpFlag : Bool
  ulPeriod : UInt32
  datStateFlag : Bool
  noCou : Bool
  noMin : Bool
  noAvg : Bool
  noMax : Bool
  tick : UInt32
  dataTime : Tmp
  rtd : UpData → Tmp
  cou : UpAverager → UpData → Tmp
  min : UpAverager → UpData → Tmp
  avg : UpAverager → UpData → Tmp
  max : UpAverager → UpData → Tmp
  flag : UpAverager → UpData → Tmp

/-- `PROTO_HJT212` -/
def protoHjt212 : UInt16 := 3

/-- `_CC_BUF_SZ` -/
def reportBufSize : ℕ := 2048

/-- `ENCODE_LEN` -/
def encodeLen : ℕ := 5 + 9 + 27 + 20 + 9 + 8 + 7 + 8 + 5 * 4 + 7 + 7 + 2 + 4 + 4 + 4 + 2 + 16

/-- The variables that `pVarManage_GetExtDataWithUpProto` does not pass over. -/
def ReportEnv.onChannel (env : ReportEnv) (node : UpData) : Bool :=
  node.bEnable && node.upEnable && (env.usDevType = node.usDevType && env.usDevNum = node.usDevNum &&
    node.usProtoType = protoHjt212)

/-- `newnid`: the nid of a variable, or the one of the channel. -/
def ReportEnv.newnid (env : ReportEnv) (node : UpData) : List UInt8 := node.szNid.getD env.MN

/-- The time between two reports of an averager, in ticks. -/
def ReportEnv.period (env : ReportEnv) : UpAverager → UInt64
  | .up => env.ulPeriod.toUInt64
  | .min => 60 * 1000
  | .min5 => 5 * 60 * 1000
  | .hour => 60 * 60 * 1000

/-- A variable is due. -/
def ReportEnv.due (env : ReportEnv) (a : UpAverager) (node : UpData) : Bool :=
  env.sharpFlag || env.period a ≤ env.tick.toUInt64 - (node.avg a).time

/-- `hjt212_real_data_format_cp`, with a time and a flag that are given. -/
def realDataFormatCp (env : ReportEnv) (first : Bool) (node : UpData) : List UInt8 :=
  (if node.szFid.isSome && first then env.dataTime.1 else []) ++
  ((if node.szFid.isSome then (env.rtd node).1 else []) ++ (env.flag .up node).1)

/-- The state of the data that a report is about: `DAT_STATE_1MIN`, `DAT_STATE_5MIN` and
`DAT_STATE_HOUR`. -/
def datState : UpAverager → List UInt8
  | .up => []
  | .min => ascii ['D', 'A', 'T', 'S', 't', 'a', 't', 'e', '=', '8', ';']
  | .min5 => ascii ['D', 'A', 'T', 'S', 't', 'a', 't', 'e', '=', '2', ';']
  | .hour => ascii ['D', 'A', 'T', 'S', 't', 'a', 't', 'e', '=', '3', ';']

/-- A comma, when something comes before. -/
def commaIf (before : Bool) : List UInt8 := if before then [44] else []

/-- `hjt212_minutes_data_format_cp`, without a time of the beginning and of the end. -/
def minutesDataFormatCp (env : ReportEnv) (a : UpAverager) (first : Bool) (node : UpData) :
    List UInt8 :=
  if node.szFid.isSome then
    (if first then env.dataTime.1 else []) ++
    ((if first && env.datStateFlag then datState a else []) ++
    ((if !env.noCou then (env.cou a node).1 else []) ++
    ((if !env.noMin then commaIf (!env.noCou) ++ (env.min a node).1 else []) ++
    ((if !env.noAvg then commaIf (!env.noCou || !env.noMin) ++ (env.avg a node).1 else []) ++
    ((if !env.noMax then commaIf (!env.noCou || !env.noMin || !env.noAvg) ++ (env.max a node).1
    else []) ++
    (commaIf (!env.noCou || !env.noMin || !env.noAvg || !env.noMax) ++ (env.flag a node).1))))))
  else []

/-- The text of a variable. -/
def ReportEnv.text (env : ReportEnv) : UpAverager → Bool → UpData → List UInt8
  | .up => realDataFormatCp env
  | a => minutesDataFormatCp env a

/-- A variable whose averager was reset. -/
def ReportEnv.reset (env : ReportEnv) (a : UpAverager) (node : UpData) : UpData :=
  { node with avg := Function.update node.avg a ⟨env.tick.toUInt64, 0, 0, 0, 0⟩ }

/-- The local variables of a builder, with its argument `*ppnode` and the positions of the variables
whose texts are in `sCp`. -/
structure ReportBuilder where
  mynid : List UInt8
  sCp : List UInt8
  first : Bool
  ppnode : Option ℕ
  items : List ℕ

/-- The loop of a builder over the variables from position `i` on. -/
def reportLoop (env : ReportEnv) (a : UpAverager) : List UpData → ℕ → ReportBuilder →
    ReportBuilder × List UpData
  | [], _, b => ({ b with ppnode := none }, [])
  | node :: rest, i, b =>
    let next (b : ReportBuilder) (node : UpData) :=
      let r := reportLoop env a rest (i + 1) b
      (r.1, node :: r.2)
    if !env.onChannel node then next b node
    else if node.upEnable then
      if b.mynid = [] || env.newnid node = b.mynid then
        let b := { b with mynid := env.newnid node }
        if env.due a node && 0 < (node.avg a).count then
          let buf := env.text a b.first node
          let b := { b with first := false }
          if b.sCp.length + buf.length < reportBufSize - encodeLen then
            next { b with sCp := b.sCp ++ buf ++ [59], ppnode := some i, items := b.items ++ [i] }
              (env.reset a node)
          else (b, node :: rest)
        else next b node
      else (b, node :: rest)
    else next { b with ppnode := some i } node

/-- A report that is sent: its nid, its text and the positions of its variables. -/
structure Hjt212Report where
  mynid : List UInt8
  sCp : List UInt8
  items : List ℕ

/-- The position behind a pointer into the list, where a null pointer stands before the list. -/
def behindNode : Option ℕ → ℕ
  | none => 0
  | some i => i + 1

/-- A builder: the variables and the resume pointer behind it, and the report that it sent. -/
def hjt212Report (env : ReportEnv) (a : UpAverager) (nodes : List UpData) (ppnode : Option ℕ) :
    List UpData × Option ℕ × Option Hjt212Report :=
  let r := reportLoop env a (nodes.drop (behindNode ppnode)) (behindNode ppnode) ⟨[], [], true,
    ppnode, []⟩
  (nodes.take (behindNode ppnode) ++ r.2, r.1.ppnode,
    if 0 < r.1.sCp.length then some ⟨r.1.mynid, r.1.sCp.dropLast, r.1.items⟩ else none)

/-- `hjt212_report_real_data` -/
def hjt212ReportRealData (env : ReportEnv) := hjt212Report env .up

/-- `hjt212_report_minutes_data` -/
def hjt212ReportMinutesData (env : ReportEnv) := hjt212Report env .min

/-- `hjt212_report_5minutes_data` -/
def hjt212Report5MinutesData (env : ReportEnv) := hjt212Report env .min5

/-- `hjt212_report_hour_data` -/
def hjt212ReportHourData (env : ReportEnv) := hjt212Report env .hour

/-- The builder of the reports of an averager. -/
def ReportEnv.builder (env : ReportEnv) : UpAverager → List UpData → Option ℕ →
    List UpData × Option ℕ × Option Hjt212Report
  | .up => hjt212ReportRealData env
  | .min => hjt212ReportMinutesData env
  | .min5 => hjt212Report5MinutesData env
  | .hour => hjt212ReportHourData env

/-- The builders are one. -/
theorem builder_eq (env : ReportEnv) (a : UpAverager) : env.builder a = hjt212Report env a := by
  cases a with
  | up => rfl
  | min => rfl
  | min5 => rfl
  | hour => rfl

/-- The work task between two calls of a builder: the variables, the resume pointer, and what was
sent. -/
structure DrainState where
  nodes : List UpData
  node : Option ℕ
  reports : List Hjt212Report

/-- A call of a builder. -/
def DrainState.call (env : ReportEnv) (a : UpAverager) (s : DrainState) : DrainState :=
  let r := env.builder a s.nodes s.node
  ⟨r.1, r.2.1, s.reports ++ r.2.2.toList⟩

/-- The loop of the work task: a builder is called until the resume pointer is null. -/
def drain (env : ReportEnv) (a : UpAverager) : ℕ → DrainState → Option DrainState
  | 0, _ => none
  | fuel + 1, s => if (s.call env a).node = none then some (s.call env a)
    else drain env a fuel (s.call env a)

end DasEdge.Sdccp
