import DasEdge.Sdccp.BjdcSession

/-!
# What the BJDC session sends without a login

The flag that a notice sets is cleared when the login has succeeded, so a notice that comes while
the login goes on is forgotten. It is looked at before a wait for packets but not before the reply
to one. And packets stay in the queue when the connection ends, so a login may take a challenge or a
pass of an earlier one. In a run in which none of this happens every message that needs a login has
one.
-/

namespace DasEdge.Sdccp

open DasEdge.Library

/-- The session, with the number of packets that were put into the queue since the last notice and
since the last answer, and whether a notice came since the last wait for a challenge ended. -/
structure BjdcSessionWatch where
  session : BjdcSession
  fresh : ℕ
  answered : ℕ
  noticed : Bool

/-- The packets since a notice, behind an event. -/
def freshAfter (n : ℕ) : BjdcEvent → ℕ
  | .received _ => n + 1
  | .exitwork => 0
  | _ => n

/-- The packets since an answer, behind an event. -/
def answeredAfter (n : ℕ) : BjdcEvent → ℕ
  | .received _ => n + 1
  | .checkmd5Req _ => 0
  | _ => n

/-- What is watched behind a step of the session. -/
def BjdcSessionWatch.next (w : BjdcSessionWatch) (r : List BjdcEvent × BjdcSession) :
    BjdcSessionWatch where
  session := r.2
  fresh := r.1.foldl freshAfter w.fresh
  answered := r.1.foldl answeredAfter w.answered
  noticed := .exitwork ∈ r.1 ∨ w.noticed = true ∧
    ¬ (w.session.pc = .waitSequence ∧ r.2.pc ≠ .waitSequence)

/-- One action. -/
def BjdcSessionWatch.step (w : BjdcSessionWatch) (action : BjdcAction) :
    Option (List BjdcEvent × BjdcSessionWatch) :=
  (w.session.step action).map fun r => (r.1, w.next r)

/-- The conditions under which a step keeps to the login: a challenge that is taken was received
behind the last notice, and a pass that is taken behind the answer; no notice came since the
challenge was taken when the flag is cleared; and the flag is not set when a message is sent that
needs a login. -/
def BjdcSessionWatch.Meets (w : BjdcSessionWatch) : BjdcAction → Bool
  | .arrive _ => true
  | .notice => true
  | .task _ _ =>
    match w.session.pc with
    | .waitSequence =>
      match w.session.queue with
      | .verifySeq _ :: _ => w.session.queue.length ≤ w.fresh
      | _ => true
    | .waitResult =>
      match w.session.queue with
      | .verifyResult true :: _ => w.session.queue.length ≤ w.answered
      | _ => true
    | .passed => !w.noticed
    | .deviceinfo => !w.session.reinit
    | .reply => !w.session.reinit
    | .sendReport => !w.session.reinit
    | _ => true

/-- Behind `cc_bjdc_open` and `cc_bjdc_startwork`. -/
def BjdcSessionWatch.opened (ini : Bool) : BjdcSessionWatch := ⟨.opened ini, 0, 0, false⟩

/-- The packets that were put into the queue. -/
def bjdcPackets (events : List BjdcEvent) : List BjdcData :=
  events.filterMap fun event =>
    match event with
    | .received xData => some xData
    | _ => none

/-- How far the login has come at a point, by the events since the last notice. -/
def BjdcPoint.Progress (answered : ℕ) : BjdcPoint → List BjdcEvent → Prop
  | .answer szSequence, late => .received (.verifySeq szSequence) ∈ late
  | .waitResult, late => ∃ szSequence before between behind, late =
      before ++ .received (.verifySeq szSequence) :: (between ++ .checkmd5Req szSequence :: behind) ∧
        (bjdcPackets behind).length = answered
  | .start, _ => True
  | .verify, _ => True
  | .waitSequence, _ => True
  | .disconnect, _ => True
  | .ended, _ => True
  | .reset, _ => True
  | _, late => BjdcExchange late

/-- The points behind a login. -/
def BjdcPoint.Works : BjdcPoint → Bool
  | .deviceinfo => true
  | .work => true
  | .waitPacket => true
  | .reply => true
  | .heartbeat => true
  | .report => true
  | .sendReport => true
  | _ => false

/-- What holds in a run whose steps meet the conditions. -/
structure BjdcSessionWatch.Ok (events : List BjdcEvent) (w : BjdcSessionWatch) : Prop where
  safe : BjdcSafe events
  queued : w.session.queue <:+ bjdcPackets events
  fresh : SinceNotice events fun late => (bjdcPackets late).length = w.fresh
  progress : w.noticed = false → SinceNotice events (w.session.pc.Progress w.answered)
  works : w.session.pc.Works = true → w.session.reinit = w.noticed

/-- More events. -/
theorem bjdcPackets_append (left right : List BjdcEvent) :
    bjdcPackets (left ++ right) = bjdcPackets left ++ bjdcPackets right := List.filterMap_append

/-- What the last events without a notice show, more of them show too. -/
theorem SinceNotice.append {events more : List BjdcEvent} {P Q : List BjdcEvent → Prop}
    (h : SinceNotice events P)
    (hmore : .exitwork ∉ more) (hkeep : ∀ late, P late → Q (late ++ more)) :
    SinceNotice (events ++ more) Q := by
  obtain ⟨early, late, rfl, hnone, hlate⟩ := h
  refine ⟨early, late ++ more, List.append_assoc _ _ _, fun hmem => ?_, hkeep late hlate⟩
  rcases List.mem_append.mp hmem with hmem | hmem
  · exact hnone hmem
  · exact hmore hmem

/-- A complete login stays one. -/
theorem BjdcExchange.append {events : List BjdcEvent} (h : BjdcExchange events)
    (more : List BjdcEvent) :
    BjdcExchange (events ++ more) := by
  obtain ⟨szSequence, before, between, behind, after, rfl⟩ := h
  exact ⟨szSequence, before, between, behind, after ++ more, by simp⟩

/-- A login that has come somewhere has come there behind more events. -/
theorem BjdcPoint.Progress.append {answered : ℕ} {pc : BjdcPoint} {late : List BjdcEvent}
    (h : pc.Progress answered late)
    (more : List BjdcEvent) : pc.Progress (answered + (bjdcPackets more).length) (late ++ more) := by
  cases pc with
  | answer szSequence => exact List.mem_append_left more h
  | waitResult =>
    obtain ⟨szSequence, before, between, behind, rfl, hcount⟩ := h
    refine ⟨szSequence, before, between, behind ++ more, by simp, ?_⟩
    rw [bjdcPackets_append, List.length_append, hcount]
  | start => trivial
  | verify => trivial
  | waitSequence => trivial
  | disconnect => trivial
  | ended => trivial
  | reset => trivial
  | passed => exact BjdcExchange.append h more
  | deviceinfo => exact BjdcExchange.append h more
  | work => exact BjdcExchange.append h more
  | waitPacket => exact BjdcExchange.append h more
  | reply => exact BjdcExchange.append h more
  | heartbeat => exact BjdcExchange.append h more
  | report => exact BjdcExchange.append h more
  | sendReport => exact BjdcExchange.append h more

/-- One more event keeps a run safe when it needs no login or has one. -/
theorem BjdcSafe.concat {events : List BjdcEvent} (h : BjdcSafe events) {event : BjdcEvent}
    (hevent : event.NeedsLogin → SinceNotice events BjdcExchange) : BjdcSafe (events ++ [event]) := by
  intro before other after heq hneeds
  rcases List.eq_nil_or_concat after with rfl | ⟨after, last, rfl⟩
  · obtain ⟨rfl, hsame⟩ := List.append_inj' heq rfl
    obtain rfl := List.singleton_inj.mp hsame
    exact hevent hneeds
  · rw [List.concat_eq_append, ← List.cons_append, ← List.append_assoc] at heq
    exact h before other after (List.append_inj' heq rfl).1 hneeds

/-- A packet that is put into the queue. -/
theorem BjdcSessionWatch.Ok.receive {events : List BjdcEvent} {w : BjdcSessionWatch}
    (h : w.Ok events) (xData : BjdcData) :
    (w.next ([.received xData], { w.session with queue := w.session.queue ++ [xData] })).Ok
      (events ++ [.received xData]) := by
  have hnone : BjdcEvent.exitwork ∉ [.received xData] := by simp
  have hnoticed : (w.next ([.received xData],
    { w.session with queue := w.session.queue ++ [xData] })).noticed =
      w.noticed := by simp [BjdcSessionWatch.next]
  refine ⟨h.safe.concat False.elim, ?_, h.fresh.append hnone fun late hlate => ?_, fun hclear => ?_,
    fun hworks => ?_⟩
  · obtain ⟨before, hbefore⟩ := h.queued
    rw [bjdcPackets_append, ← hbefore, List.append_assoc]
    exact List.suffix_append before _
  · rw [bjdcPackets_append, List.length_append, hlate]
    rfl
  · rw [hnoticed] at hclear
    exact (h.progress hclear).append hnone fun late hlate => hlate.append [.received xData]
  · rw [hnoticed]
    exact h.works hworks

/-- A packet that does not fit the queue. -/
theorem BjdcSessionWatch.Ok.drop {events : List BjdcEvent} {w : BjdcSessionWatch} (h : w.Ok events)
    (xData : BjdcData) :
    (w.next ([.dropped xData], w.session)).Ok (events ++ [.dropped xData]) := by
  have hnone : BjdcEvent.exitwork ∉ [.dropped xData] := by simp
  have hnoticed : (w.next ([.dropped xData], w.session)).noticed = w.noticed := by
    simp [BjdcSessionWatch.next]
  refine ⟨h.safe.concat False.elim, ?_, h.fresh.append hnone fun late hlate => ?_, fun hclear => ?_,
    fun hworks => ?_⟩
  · rw [bjdcPackets_append]
    exact (List.append_nil (bjdcPackets events)).symm ▸ h.queued
  · rw [bjdcPackets_append, List.length_append, hlate]
    rfl
  · rw [hnoticed] at hclear
    exact (h.progress hclear).append hnone fun late hlate => hlate.append [.dropped xData]
  · rw [hnoticed]
    exact h.works hworks

/-- A notice. -/
theorem BjdcSessionWatch.Ok.notice {events : List BjdcEvent} {w : BjdcSessionWatch} (h : w.Ok events) :
    (w.next w.session.exitwork).Ok (events ++ [.exitwork]) := by
  have hnoticed : (w.next w.session.exitwork).noticed = true := by
    simp [BjdcSessionWatch.next, BjdcSession.exitwork]
  refine ⟨h.safe.concat False.elim, ?_,
    ⟨events ++ [.exitwork], [], (List.append_nil _).symm, List.not_mem_nil, rfl⟩,
    fun hclear => ?_, fun _ => hnoticed.symm⟩
  · rw [bjdcPackets_append]
    exact (List.append_nil (bjdcPackets events)).symm ▸ h.queued
  · exact absurd (hnoticed.symm.trans hclear) (by decide)

/-- What the task does leaves the queue's packets alone or takes the first one. -/
theorem BjdcSessionWatch.Ok.goes_on {events : List BjdcEvent} {w w' : BjdcSessionWatch}
    (h : w.Ok events)
    (event : Option BjdcEvent) (hnone : .exitwork ∉ event.toList)
    (hpackets : bjdcPackets event.toList = [])
    (hlogin : ∀ e ∈ event, e.NeedsLogin → SinceNotice events BjdcExchange)
    (hqueue : w'.session.queue <:+ w.session.queue) (hfresh : w'.fresh = w.fresh)
    (hprogress : w'.noticed = false →
      SinceNotice (events ++ event.toList) (w'.session.pc.Progress w'.answered))
    (hworks : w'.session.pc.Works = true → w'.session.reinit = w'.noticed) :
    w'.Ok (events ++ event.toList) := by
  refine ⟨?_, ?_, h.fresh.append hnone fun late hlate => ?_, hprogress, hworks⟩
  · cases event with
    | none => exact (List.append_nil events).symm ▸ h.safe
    | some e => exact h.safe.concat (hlogin e rfl)
  · rw [bjdcPackets_append, hpackets, List.append_nil]
    exact hqueue.trans h.queued
  · rw [bjdcPackets_append, hpackets, List.append_nil, hlate, hfresh]

/-- A packet at the head of the queue was received among the last ones, if these are as many as the
queue's. -/
theorem mem_of_packets {late : List BjdcEvent} {events : List BjdcEvent} {xData : BjdcData}
    {queue : List BjdcData}
    (hqueue : xData :: queue <:+ bjdcPackets events) (hlate : bjdcPackets late <:+ bjdcPackets events)
    (hcount : (xData :: queue).length ≤ (bjdcPackets late).length) : .received xData ∈ late := by
  have hmem : xData ∈ bjdcPackets late :=
    (List.suffix_of_suffix_length_le hqueue hlate hcount).subset List.mem_cons_self
  obtain ⟨event, hevent, hpacket⟩ := List.mem_filterMap.mp hmem
  cases event with
  | received other =>
    obtain rfl := Option.some.inj hpacket
    exact hevent
  | _ => cases hpacket

/-- The points at which nothing of a login counts. -/
def BjdcPoint.Idles : BjdcPoint → Bool
  | .start => true
  | .verify => true
  | .waitSequence => true
  | .disconnect => true
  | .ended => true
  | .reset => true
  | _ => false

/-- There nothing is asked of the events. -/
theorem BjdcPoint.Idles.progress {pc : BjdcPoint} (h : pc.Idles = true) (answered : ℕ)
    (late : List BjdcEvent) :
    pc.Works = false ∧ pc.Progress answered late := by
  cases pc with
  | start => exact ⟨rfl, trivial⟩
  | verify => exact ⟨rfl, trivial⟩
  | waitSequence => exact ⟨rfl, trivial⟩
  | disconnect => exact ⟨rfl, trivial⟩
  | ended => exact ⟨rfl, trivial⟩
  | reset => exact ⟨rfl, trivial⟩
  | _ => cases h

/-- Behind a login it is asked for. -/
theorem BjdcPoint.Works.progress_iff {pc : BjdcPoint} (h : pc.Works = true) (answered : ℕ)
    (late : List BjdcEvent) :
    pc.Progress answered late ↔ BjdcExchange late := by
  cases pc with
  | deviceinfo => exact Iff.rfl
  | work => exact Iff.rfl
  | waitPacket => exact Iff.rfl
  | reply => exact Iff.rfl
  | heartbeat => exact Iff.rfl
  | report => exact Iff.rfl
  | sendReport => exact Iff.rfl
  | _ => cases h

/-- The task begins a login, or ends. -/
theorem BjdcSessionWatch.Ok.idles {events : List BjdcEvent} {w w' : BjdcSessionWatch} (h : w.Ok events)
    (event : Option BjdcEvent) (hnone : .exitwork ∉ event.toList)
    (hpackets : bjdcPackets event.toList = [])
    (hneeds : ∀ e ∈ event, ¬ e.NeedsLogin) (hqueue : w'.session.queue <:+ w.session.queue)
    (hfresh : w'.fresh = w.fresh)
    (hidles : w'.session.pc.Idles = true) : w'.Ok (events ++ event.toList) := by
  refine h.goes_on event hnone hpackets (fun e he hlogin => absurd hlogin (hneeds e he)) hqueue
    hfresh (fun _ => ?_) fun hworks => ?_
  · exact ⟨events ++ event.toList, [], (List.append_nil _).symm, List.not_mem_nil,
      (BjdcPoint.Idles.progress hidles w'.answered []).2⟩
  · rw [(BjdcPoint.Idles.progress hidles w'.answered []).1] at hworks
    cases hworks

/-- The task works on behind a login. -/
theorem BjdcSessionWatch.Ok.works_on {events : List BjdcEvent} {w w' : BjdcSessionWatch}
    (h : w.Ok events)
    (event : Option BjdcEvent) (hnone : .exitwork ∉ event.toList)
    (hpackets : bjdcPackets event.toList = [])
    (hclear : ∀ e ∈ event, e.NeedsLogin → w.session.reinit = false)
    (hqueue : w'.session.queue <:+ w.session.queue)
    (hfresh : w'.fresh = w.fresh) (hfrom : w.session.pc.Works = true) (hto : w'.session.pc.Works = true)
    (hreinit : w'.session.reinit = w.session.reinit) (hnoticed : w'.noticed = w.noticed) :
    w'.Ok (events ++ event.toList) := by
  have hflag := h.works hfrom
  have hlogin : w.noticed = false → SinceNotice events BjdcExchange := by
    intro hquiet
    obtain ⟨early, last, heq, hquietly, hprogress⟩ := h.progress hquiet
    exact ⟨early, last, heq, hquietly, (BjdcPoint.Works.progress_iff hfrom _ _).mp hprogress⟩
  refine h.goes_on event hnone hpackets (fun e he hneeds => hlogin (hflag ▸ hclear e he hneeds))
    hqueue hfresh
    (fun hquiet => ?_) fun _ => ?_
  · rw [hnoticed] at hquiet
    exact (hlogin hquiet).append hnone fun last hlast =>
      (BjdcPoint.Works.progress_iff hto _ _).mpr (hlast.append event.toList)
  · rw [hreinit, hnoticed, hflag]

/-- The task does something that needs no login, and works on or begins a login. -/
theorem BjdcSessionWatch.Ok.works_or_idles {events : List BjdcEvent} {w w' : BjdcSessionWatch}
    (h : w.Ok events)
    (event : Option BjdcEvent) (hnone : .exitwork ∉ event.toList)
    (hpackets : bjdcPackets event.toList = [])
    (hneeds : ∀ e ∈ event, ¬ e.NeedsLogin) (hqueue : w'.session.queue <:+ w.session.queue)
    (hfresh : w'.fresh = w.fresh)
    (hfrom : w.session.pc.Works = true) (hto : w'.session.pc.Idles = true ∨ w'.session.pc.Works = true)
    (hreinit : w'.session.reinit = w.session.reinit) (hnoticed : w'.noticed = w.noticed) :
    w'.Ok (events ++ event.toList) := by
  cases hto with
  | inl hidles => exact h.idles event hnone hpackets hneeds hqueue hfresh hidles
  | inr hworks =>
    exact h.works_on event hnone hpackets (fun e he hlogin => absurd hlogin (hneeds e he)) hqueue
      hfresh hfrom hworks hreinit
      hnoticed

/-- The challenge at the head of the queue came since the last notice, when the packets in the queue
did. -/
theorem BjdcSessionWatch.Ok.challenge {events : List BjdcEvent} {w : BjdcSessionWatch} (h : w.Ok events)
    {szSequence : List UInt8} {rest : List BjdcData}
    (hqueue : w.session.queue = .verifySeq szSequence :: rest)
    (hcount : w.session.queue.length ≤ w.fresh) :
    SinceNotice events fun late => .received (.verifySeq szSequence) ∈ late := by
  obtain ⟨early, last, rfl, hnone, hlast⟩ := h.fresh
  have hqueued := h.queued
  rw [hqueue] at hqueued hcount
  refine ⟨early, last, rfl, hnone, mem_of_packets hqueued ?_ (hlast.symm ▸ hcount)⟩
  rw [bjdcPackets_append]
  exact List.suffix_append _ _

/-- The pass at the head of the queue came since the answer, when the packets in the queue did. -/
theorem BjdcSessionWatch.Ok.pass {events : List BjdcEvent} {w : BjdcSessionWatch} (h : w.Ok events)
    {rest : List BjdcData}
    (hpc : w.session.pc = .waitResult) (hqueue : w.session.queue = .verifyResult true :: rest)
    (hcount : w.session.queue.length ≤ w.answered) (hquiet : w.noticed = false) :
    SinceNotice events BjdcExchange := by
  have hprogress := h.progress hquiet
  rw [hpc] at hprogress
  obtain ⟨early, last, rfl, hnone, szSequence, before, between, behind, rfl, hlast⟩ := hprogress
  have hqueued := h.queued
  rw [hqueue] at hqueued hcount
  have hpass : .received (.verifyResult true) ∈ behind := by
    refine mem_of_packets hqueued ?_ (hlast.symm ▸ hcount)
    have hsplit : early ++ (before ++ .received (.verifySeq szSequence) ::
      (between ++ .checkmd5Req szSequence :: behind)) =
        (early ++ before ++ .received (.verifySeq szSequence) :: between ++
        [.checkmd5Req szSequence]) ++ behind := by simp
    rw [hsplit, bjdcPackets_append]
    exact List.suffix_append _ _
  obtain ⟨middle, after, rfl⟩ := List.append_of_mem hpass
  exact ⟨early, _, rfl, hnone, szSequence, before, between, middle, after, rfl⟩

/-- The wait for a challenge takes one, or the login begins again. -/
theorem BjdcSession.task_waitSequence (ini reinit : Bool) (queue : List BjdcData) (late due : Bool) :
    (∃ szSequence rest, queue = .verifySeq szSequence :: rest ∧
      BjdcSession.task ⟨.waitSequence, ini, reinit, queue⟩ late due =
      some ([], ⟨.answer szSequence, ini, reinit, rest⟩)) ∨
    ∃ pc rest, BjdcPoint.Idles pc = true ∧ rest <:+ queue ∧
      BjdcSession.task ⟨.waitSequence, ini, reinit, queue⟩ late due =
      some ([], ⟨pc, ini, reinit, rest⟩) := by
  cases queue with
  | nil => exact .inr ⟨.disconnect, [], rfl, List.nil_suffix, rfl⟩
  | cons xData rest =>
    cases xData with
    | verifySeq szSequence => exact .inl ⟨szSequence, rest, rfl, rfl⟩
    | _ => exact .inr ⟨.verify, rest, rfl, List.suffix_cons _ rest, rfl⟩

/-- The wait for the result takes a pass, or the login begins again. -/
theorem BjdcSession.task_waitResult (ini reinit : Bool) (queue : List BjdcData) (late due : Bool) :
    (∃ rest, queue = .verifyResult true :: rest ∧
      BjdcSession.task ⟨.waitResult, ini, reinit, queue⟩ late due =
      some ([], ⟨.passed, ini, reinit, rest⟩)) ∨
    ∃ pc rest, BjdcPoint.Idles pc = true ∧ rest <:+ queue ∧
      BjdcSession.task ⟨.waitResult, ini, reinit, queue⟩ late due =
      some ([], ⟨pc, ini, reinit, rest⟩) := by
  cases queue with
  | nil => exact .inr ⟨.verify, [], rfl, List.nil_suffix, rfl⟩
  | cons xData rest =>
    cases xData with
    | verifyResult bPass =>
      cases bPass with
      | true => exact .inl ⟨rest, rfl, rfl⟩
      | false => exact .inr ⟨.disconnect, rest, rfl, List.suffix_cons _ rest, rfl⟩
    | _ => exact .inr ⟨.verify, rest, rfl, List.suffix_cons _ rest, rfl⟩

/-- The wait for a packet leads on in the loop, or the system is reset. -/
theorem BjdcSession.task_waitPacket (ini reinit : Bool) (queue : List BjdcData) (late due : Bool) :
    ∃ event pc rest, (event = none ∨ (∃ interval, event = some (.setUpInterval interval)) ∨
      event = some .systemReset) ∧
      rest <:+ queue ∧ (BjdcPoint.Idles pc = true ∨ BjdcPoint.Works pc = true) ∧
      BjdcSession.task ⟨.waitPacket, ini, reinit, queue⟩ late due =
        some (Option.toList event, ⟨pc, ini, reinit, rest⟩) := by
  cases queue with
  | nil => exact ⟨none, .heartbeat, [], .inl rfl, List.nil_suffix, .inr rfl, rfl⟩
  | cons xData rest =>
    have hrest := List.suffix_cons xData rest
    cases xData with
    | dataQuery => exact ⟨none, .reply, rest, .inl rfl, hrest, .inr rfl, rfl⟩
    | periodCfg ulPeriod =>
      by_cases hpositive : 0 < ulPeriod.toInt32
      · exact ⟨some (.setUpInterval (ulPeriod * 60)), .heartbeat, rest, .inr (.inl ⟨_, rfl⟩),
          hrest, .inr rfl,
          congrArg some (if_pos hpositive)⟩
      · exact ⟨none, .heartbeat, rest, .inl rfl, hrest, .inr rfl, congrArg some (if_neg hpositive)⟩
    | restart => exact ⟨some .systemReset, .reset, rest, .inr (.inr rfl), hrest, .inl rfl, rfl⟩
    | _ => exact ⟨none, .heartbeat, rest, .inl rfl, hrest, .inr rfl, rfl⟩

/-- A step that meets its condition keeps what holds. -/
theorem BjdcSessionWatch.Ok.task {events : List BjdcEvent} {w : BjdcSessionWatch} (h : w.Ok events)
    {late due : Bool}
    (hmeets : w.Meets (.task late due) = true) {r : List BjdcEvent × BjdcSession}
    (hstep : w.session.task late due = some r) :
    (w.next r).Ok (events ++ r.1) := by
  obtain ⟨⟨pc, ini, reinit, queue⟩, fresh, answered, noticed⟩ := w
  cases pc with
  | start =>
    cases hstep
    refine h.idles none List.not_mem_nil rfl (fun _ he => nomatch he) (List.suffix_refl queue) rfl ?_
    cases ini with
    | true => rfl
    | false => rfl
  | verify =>
    cases hstep
    exact h.idles (some .verifyReq) (by simp) rfl (by simp [BjdcEvent.NeedsLogin])
      (List.suffix_refl queue) rfl rfl
  | waitSequence =>
    rcases BjdcSession.task_waitSequence ini reinit queue late due with
      ⟨szSequence, rest, rfl, hnext⟩ | ⟨pc, rest, hidles, hrest, hnext⟩
    · cases hnext.symm.trans hstep
      have hcount : (BjdcData.verifySeq szSequence :: rest).length ≤ fresh := of_decide_eq_true hmeets
      refine h.goes_on none List.not_mem_nil rfl (fun _ he => nomatch he)
        (List.suffix_cons _ rest) rfl (fun _ => ?_)
        fun hworks => nomatch hworks
      exact (h.challenge rfl hcount).append List.not_mem_nil fun last hlast =>
        List.mem_append_left _ hlast
    · cases hnext.symm.trans hstep
      exact h.idles none List.not_mem_nil rfl (fun _ he => nomatch he) hrest rfl hidles
  | answer szSequence =>
    cases hstep
    refine h.goes_on (some (.checkmd5Req szSequence)) (by simp) rfl (by simp [BjdcEvent.NeedsLogin])
      (List.suffix_refl queue)
      rfl (fun hquiet => ?_) fun hworks => nomatch hworks
    have hquiet : noticed = false := by simpa [BjdcSessionWatch.next] using hquiet
    refine (h.progress hquiet).append (by simp) fun last hlast => ?_
    obtain ⟨before, between, rfl⟩ := List.append_of_mem hlast
    exact ⟨szSequence, before, between, [], by simp, rfl⟩
  | waitResult =>
    rcases BjdcSession.task_waitResult ini reinit queue late due
      with ⟨rest, rfl, hnext⟩ | ⟨pc, rest, hidles, hrest, hnext⟩
    · cases hnext.symm.trans hstep
      have hcount : (BjdcData.verifyResult true :: rest).length ≤ answered := of_decide_eq_true hmeets
      refine h.goes_on none List.not_mem_nil rfl (fun _ he => nomatch he)
        (List.suffix_cons _ rest) rfl (fun hquiet => ?_)
        fun hworks => nomatch hworks
      have hquiet : noticed = false := by simpa [BjdcSessionWatch.next] using hquiet
      exact (h.pass rfl rfl hcount hquiet).append List.not_mem_nil fun last hlast => hlast.append []
    · cases hnext.symm.trans hstep
      exact h.idles none List.not_mem_nil rfl (fun _ he => nomatch he) hrest rfl hidles
  | disconnect =>
    cases hstep
    exact h.idles (some .netDisconnect) (by simp) rfl (by simp [BjdcEvent.NeedsLogin])
      (List.suffix_refl queue) rfl rfl
  | passed =>
    cases hstep
    have hquiet : noticed = false := by simpa [BjdcSessionWatch.Meets] using hmeets
    refine h.goes_on none List.not_mem_nil rfl (fun _ he => nomatch he) (List.suffix_refl queue) rfl
      (fun _ => ?_) fun _ => ?_
    · exact (h.progress hquiet).append List.not_mem_nil fun last hlast => BjdcExchange.append hlast []
    · simp [BjdcSessionWatch.next, hquiet]
  | deviceinfo =>
    cases hstep
    have hclear : reinit = false := by simpa [BjdcSessionWatch.Meets] using hmeets
    exact h.works_on (some .deviceinfoReq) (by simp) rfl (fun _ _ _ => hclear)
      (List.suffix_refl queue) rfl rfl rfl rfl
      (by simp [BjdcSessionWatch.next])
  | work =>
    cases hstep
    cases reinit with
    | true => exact h.idles none List.not_mem_nil rfl (fun _ he => nomatch he) (List.suffix_refl queue) rfl rfl
    | false =>
      exact h.works_on none List.not_mem_nil rfl (fun _ he => nomatch he)
        (List.suffix_refl queue) rfl rfl rfl rfl
        (by simp [BjdcSessionWatch.next])
  | waitPacket =>
    obtain ⟨event, pc, rest, hown, hrest, hpc, hnext⟩ :=
      BjdcSession.task_waitPacket ini reinit queue late due
    cases hnext.symm.trans hstep
    rcases hown with rfl | ⟨interval, rfl⟩ | rfl
    · exact h.works_or_idles none List.not_mem_nil rfl (fun _ he => nomatch he) hrest rfl rfl hpc rfl
        (by simp [BjdcSessionWatch.next])
    · exact h.works_or_idles (some (.setUpInterval interval)) (by simp) rfl
        (by simp [BjdcEvent.NeedsLogin]) hrest rfl rfl hpc
        rfl (by simp [BjdcSessionWatch.next])
    · exact h.works_or_idles (some .systemReset) (by simp) rfl (by simp [BjdcEvent.NeedsLogin])
        hrest rfl rfl hpc rfl
        (by simp [BjdcSessionWatch.next])
  | reply =>
    cases hstep
    have hclear : reinit = false := by simpa [BjdcSessionWatch.Meets] using hmeets
    exact h.works_on (some .dataReply) (by simp) rfl (fun _ _ _ => hclear)
      (List.suffix_refl queue) rfl rfl rfl rfl
      (by simp [BjdcSessionWatch.next])
  | heartbeat =>
    cases hstep
    cases late with
    | true =>
      exact h.works_on (some .heartbeatReq) (by simp) rfl (by simp [BjdcEvent.NeedsLogin])
        (List.suffix_refl queue) rfl rfl
        rfl rfl (by simp [BjdcSessionWatch.next])
    | false =>
      exact h.works_on none List.not_mem_nil rfl (fun _ he => nomatch he)
        (List.suffix_refl queue) rfl rfl rfl rfl
        (by simp [BjdcSessionWatch.next])
  | report =>
    cases hstep
    refine h.works_on none List.not_mem_nil rfl (fun _ he => nomatch he)
      (List.suffix_refl queue) rfl rfl ?_ rfl
      (by simp [BjdcSessionWatch.next])
    simp only [BjdcSessionWatch.next]
    split
    · rfl
    · rfl
  | sendReport =>
    cases hstep
    have hclear : reinit = false := by simpa [BjdcSessionWatch.Meets] using hmeets
    exact h.works_on (some .dataReport) (by simp) rfl (fun _ _ _ => hclear)
      (List.suffix_refl queue) rfl rfl rfl rfl
      (by simp [BjdcSessionWatch.next])
  | ended => cases hstep
  | reset => cases hstep

/-- An action that meets its condition keeps what holds. -/
theorem BjdcSessionWatch.Ok.step {events : List BjdcEvent} {w w' : BjdcSessionWatch}
    (h : w.Ok events) {action : BjdcAction}
    (hmeets : w.Meets action = true) {out : List BjdcEvent} (hstep : w.step action = some (out, w')) :
    w'.Ok (events ++ out) := by
  obtain ⟨r, hr, heq⟩ := Option.map_eq_some_iff.mp hstep
  cases heq
  cases action with
  | arrive xData =>
    cases hr
    by_cases hfits : w.session.queue.length < bjdcQueueSize
    · rw [BjdcSession.send, if_pos hfits]
      exact h.receive xData
    · rw [BjdcSession.send, if_neg hfits]
      exact h.drop xData
  | notice =>
    cases hr
    exact h.notice
  | task late due => exact h.task hmeets hr

/-- At the beginning nothing has happened. -/
theorem BjdcSessionWatch.opened_ok (ini : Bool) : (BjdcSessionWatch.opened ini).Ok [] where
  safe before event after heq := by
    have hlength := congrArg List.length heq
    simp at hlength
  queued := List.nil_suffix
  fresh := ⟨[], [], rfl, List.not_mem_nil, rfl⟩
  progress _ := ⟨[], [], rfl, List.not_mem_nil, trivial⟩
  works hworks := nomatch hworks

/-- In a run whose steps meet the conditions every message that needs a login is preceded by a
complete one behind the last notice. -/
theorem bjdc_session_safe (ini : Bool) (actions : List BjdcAction) (outs : List (List BjdcEvent))
    (s : BjdcSession)
    (hrun : runBlocking BjdcSession.step (BjdcSession.opened ini) actions = some (outs, s))
    (hmeets : GuardedRun BjdcSessionWatch.step (fun w action => w.Meets action = true)
      (BjdcSessionWatch.opened ini) actions) :
    BjdcSafe outs.flatten := by
  obtain ⟨w, hwatched, -⟩ :=
    runBlocking_watch BjdcSession.step BjdcSessionWatch.next BjdcSessionWatch.session
    (fun _ _ => rfl) (BjdcSessionWatch.opened ini) hrun
  have hfirst : (BjdcSessionWatch.opened ini).Ok ([] : List (List BjdcEvent)).flatten :=
    BjdcSessionWatch.opened_ok ini
  have hkeeps := runBlocking_keeps BjdcSessionWatch.step (fun w action => w.Meets action = true)
    (fun outs w => w.Ok outs.flatten) (fun outs w action out w' hok hmeet hstep => ?_) hfirst
      hmeets hwatched
  · exact hkeeps.safe
  · rw [List.flatten_append, List.flatten_singleton]
    exact hok.step hmeet hstep

/-- A login, a reply to a query and a report. -/
def loggedIn : List BjdcAction :=
  [.task false false, .task false false, .arrive (.verifySeq [49]), .task false false,
    .task false false,
    .arrive (.verifyResult true), .task false false, .task false false, .task false false,
    .task false false,
    .arrive .dataQuery, .task false false, .task false false, .task false true, .task false true,
    .task false false]

/-- In that order all its steps meet the conditions. -/
theorem bjdc_session_safe_loggedIn :
    BjdcSafe [[], [.verifyReq], [.received (.verifySeq [49])], [], [.checkmd5Req [49]],
      [.received (.verifyResult true)],
      [], [], [.deviceinfoReq], [], [.received .dataQuery], [], [.dataReply], [], [],
      [.dataReport]].flatten :=
  bjdc_session_safe true loggedIn _ ⟨.work, true, false, []⟩ (by decide) (by decide)

/-- A notice that comes before the pass is taken is forgotten. -/
theorem bjdc_session_unsafe :
    ¬ ∀ (ini : Bool) (actions : List BjdcAction) (outs : List (List BjdcEvent)) (s : BjdcSession),
      runBlocking BjdcSession.step (BjdcSession.opened ini) actions = some (outs, s) →
      BjdcSafe outs.flatten := by
  intro h
  have hsafe := h true
    [.task false false, .task false false, .arrive (.verifySeq [49]), .task false false,
      .task false false,
      .arrive (.verifyResult true), .notice, .task false false, .task false false, .task false false]
    [[], [.verifyReq], [.received (.verifySeq [49])], [], [.checkmd5Req [49]],
      [.received (.verifyResult true)],
      [.exitwork], [], [], [.deviceinfoReq]] ⟨.work, true, false, []⟩ (by decide)
  obtain ⟨early, late, heq, hnone, hexchange⟩ := hsafe
    [.verifyReq, .received (.verifySeq [49]), .checkmd5Req [49], .received (.verifyResult true),
      .exitwork] .deviceinfoReq []
    rfl trivial
  rcases List.eq_nil_or_concat late with rfl | ⟨front, last, rfl⟩
  · obtain ⟨szSequence, before, between, behind, after, hnil⟩ := hexchange
    exact absurd (congrArg List.length hnil) (by simp)
  · rw [List.concat_eq_append, ← List.append_assoc] at heq
    have hsplit : [BjdcEvent.verifyReq, .received (.verifySeq [49]), .checkmd5Req [49],
      .received (.verifyResult true)] ++
        [.exitwork] = early ++ front ++ [last] := heq
    obtain rfl := List.singleton_inj.mp (List.append_inj' hsplit rfl).2
    exact hnone (by simp)

end DasEdge.Sdccp
