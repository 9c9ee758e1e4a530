import DasEdge.Library.GuardedRun

/-!
# The BJDC session

The task `cc_bjdc_work_task` of `cc_bjdc.c`, the packets that `__CC_BJDC_ParsePack` puts into its
queue, and the notice `cc_bjdc_exitwork` that the connection has ended. The task runs from one point
to the next; at every point packets and notices may come in between. What it does is noted as
events. What it sends is noted by kind, and the answer to a challenge with the sequence that it is
computed from.
-/

namespace DasEdge.Sdccp

/-- `CC_BJDC_Data_t`: a parsed packet. -/
inductive BjdcData where
  | verifySeq (szSequence : List UInt8)
  | verifyResult (bPass : Bool)
  | devinfo
  | heartbeat (szDate : List UInt8)
  | periodCfg (ulPeriod : UInt32)
  | restart
  | dataQuery
  | dataContinue
  deriving DecidableEq

/-- The points of the task. -/
inductive BjdcPoint where
  /-- `_START` -/
  | start
  /-- The login asks for a challenge. -/
  | verify
  /-- It waits 10 s for it. -/
  | waitSequence
  /-- It has taken a challenge. -/
  | answer (szSequence : List UInt8)
  /-- It has sent the answer and waits 5 s for the result. -/
  | waitResult
  /-- It gives the connection up. -/
  | disconnect
  /-- It has taken a pass. -/
  | passed
  /-- `s_cc_reinit_flag` is cleared. -/
  | deviceinfo
  /-- The head of the loop that sends data. -/
  | work
  /-- It waits 2 s for a packet. -/
  | waitPacket
  /-- It has taken a query. -/
  | reply
  /-- It looks at the heartbeat tick. -/
  | heartbeat
  /-- It looks for data that is due. -/
  | report
  /-- It has found some. -/
  | sendReport
  /-- It has no configuration, and ends. -/
  | ended
  /-- The system is reset. -/
  | reset
  deriving DecidableEq

/-- What happens. -/
inductive BjdcEvent where
  /-- A packet is put into the queue. -/
  | received (xData : BjdcData)
  /-- A packet does not fit the queue. -/
  | dropped (xData : BjdcData)
  /-- `cc_bjdc_exitwork` -/
  | exitwork
  /-- `cc_bjdc_verify_req` -/
  | verifyReq
  /-- `cc_bjdc_checkmd5_req` with the answer to a sequence. -/
  | checkmd5Req (szSequence : List UInt8)
  /-- `cc_net_disconnect` -/
  | netDisconnect
  /-- `cc_bjdc_deviceinfo_req` -/
  | deviceinfoReq
  /-- `vVarManage_SetExtDataUpInterval` -/
  | setUpInterval (interval : UInt32)
  /-- `vDoSystemReset` -/
  | systemReset
  /-- The reply to a query. -/
  | dataReply
  /-- `cc_bjdc_heartbeat_req` -/
  | heartbeatReq
  /-- A data report. -/
  | dataReport
  deriving DecidableEq

/-- The task, whether it has a configuration, `s_cc_reinit_flag`, and the queue `s_CCDataQueue`. -/
structure BjdcSession where
  pc : BjdcPoint
  ini : Bool
  reinit : Bool
  queue : List BjdcData
  deriving DecidableEq

/-- The number of packets that the queue holds. -/
def bjdcQueueSize : ℕ := 3

/-- `rt_mq_send` in `__CC_BJDC_ParsePack` -/
def BjdcSession.send (s : BjdcSession) (xData : BjdcData) : List BjdcEvent × BjdcSession :=
  if s.queue.length < bjdcQueueSize then ([.received xData], { s with queue := s.queue ++ [xData] })
  else ([.dropped xData], s)

/-- `cc_bjdc_exitwork` -/
def BjdcSession.exitwork (s : BjdcSession) : List BjdcEvent × BjdcSession :=
  ([.exitwork], { s with reinit := true })

/-- What the work loop does with a packet that it has taken. -/
def BjdcSession.packet (s : BjdcSession) : BjdcData → List BjdcEvent × BjdcSession
  | .dataQuery => ([], { s with pc := .reply })
  | .periodCfg ulPeriod =>
    if 0 < ulPeriod.toInt32 then ([.setUpInterval (ulPeriod * 60)], { s with pc := .heartbeat })
    else ([], { s with pc := .heartbeat })
  | .restart => ([.systemReset], { s with pc := .reset })
  | _ => ([], { s with pc := .heartbeat })

/-- `cc_bjdc_work_task` from one point to the next. A wait ends with the first packet of the queue,
or without one when its time is over. `late`: the last heartbeat was 20 s ago. `due`: the interval
lies in its bounds and some enabled variable with samples is due. -/
def BjdcSession.task (s : BjdcSession) (late due : Bool) : Option (List BjdcEvent × BjdcSession) :=
  match s.pc with
  | .start => some ([], { s with pc := if s.ini then .verify else .ended })
  | .verify => some ([.verifyReq], { s with pc := .waitSequence })
  | .waitSequence =>
    match s.queue with
    | [] => some ([], { s with pc := .disconnect })
    | .verifySeq szSequence :: queue => some ([], { s with pc := .answer szSequence, queue := queue })
    | _ :: queue => some ([], { s with pc := .verify, queue := queue })
  | .answer szSequence => some ([.checkmd5Req szSequence], { s with pc := .waitResult })
  | .waitResult =>
    match s.queue with
    | [] => some ([], { s with pc := .verify })
    | .verifyResult true :: queue => some ([], { s with pc := .passed, queue := queue })
    | .verifyResult false :: queue => some ([], { s with pc := .disconnect, queue := queue })
    | _ :: queue => some ([], { s with pc := .verify, queue := queue })
  | .disconnect => some ([.netDisconnect], { s with pc := .start })
  | .passed => some ([], { s with pc := .deviceinfo, reinit := false })
  | .deviceinfo => some ([.deviceinfoReq], { s with pc := .work })
  | .work => some ([], { s with pc := if s.reinit then .start else .waitPacket })
  | .waitPacket =>
    match s.queue with
    | [] => some ([], { s with pc := .heartbeat })
    | xData :: queue => some ({ s with queue := queue }.packet xData)
  | .reply => some ([.dataReply], { s with pc := .heartbeat })
  | .heartbeat => some (if late then [.heartbeatReq] else [], { s with pc := .report })
  | .report => some ([], { s with pc := if due && !s.reinit then .sendReport else .work })
  | .sendReport => some ([.dataReport], { s with pc := .work })
  | .ended => none
  | .reset => none

/-- What may come next. -/
inductive BjdcAction where
  | arrive (xData : BjdcData)
  | notice
  | task (late due : Bool)

/-- One action. -/
def BjdcSession.step (s : BjdcSession) : BjdcAction → Option (List BjdcEvent × BjdcSession)
  | .arrive xData => some (s.send xData)
  | .notice => some s.exitwork
  | .task late due => s.task late due

/-- Behind `cc_bjdc_open` and `cc_bjdc_startwork`. -/
def BjdcSession.opened (ini : Bool) : BjdcSession := ⟨.start, ini, false, []⟩

/-- The messages that need a login. -/
def BjdcEvent.NeedsLogin : BjdcEvent → Prop
  | .deviceinfoReq => True
  | .dataReply => True
  | .dataReport => True
  | _ => False

/-- A complete login: a challenge is received, its answer is sent, and a pass is received. -/
def BjdcExchange (events : List BjdcEvent) : Prop :=
  ∃ szSequence before between behind after, events =
    before ++ .received (.verifySeq szSequence) ::
      (between ++ .checkmd5Req szSequence :: (behind ++ .received (.verifyResult true) :: after))

/-- Some last events without a notice. -/
def SinceNotice (events : List BjdcEvent) (P : List BjdcEvent → Prop) : Prop :=
  ∃ early late, events = early ++ late ∧ .exitwork ∉ late ∧ P late

/-- Every message that needs a login is preceded by a complete one behind the last notice. -/
def BjdcSafe (events : List BjdcEvent) : Prop :=
  ∀ before event after, events = before ++ event :: after → event.NeedsLogin →
    SinceNotice before BjdcExchange

end DasEdge.Sdccp
