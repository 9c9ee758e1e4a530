import DasEdge.VarManage.MeterDelivery

/-!
# Which variables a meter's answer reaches

The poll plan groups variables by device, protocol and meter, but the lookups of the delivery
functions compare only some of the protocol's parameters, and the refresh goes to whichever variable
covers the internal address first. An answer stays with the variables of its meter exactly when
every variable that these searches lead to is one of them.
-/

namespace DasEdge.VarManage

/-- What a node of the poll plan asks a meter for, and the internal addresses and parameters that it
hands to the delivery functions. -/
inductive MeterAsk where
  | dlt645 (meter : List UInt8) (addr : UInt16) (op : UInt32)
  | mbus603 (meter : UInt8) (addr : UInt16) (op : UInt32)
  | dust (addr : UInt16) (op : UInt8)
  | smf (addr : UInt16) (op : UInt8)
  | dh (sid type : UInt32)
  deriving DecidableEq

/-- A poll of a meter. -/
structure MeterPoll where
  devType : UInt8
  devNum : UInt8
  protoType : UInt8
  ask : MeterAsk
  deriving DecidableEq

/-- The part of `__get_next_sync_ext_node` that is about meters. -/
def meterPollOf (slave : SyncSlave) (ext : SyncExt) : Option MeterPoll :=
  let poll (ask : MeterAsk) : Option MeterPoll :=
    some ⟨slave.devType, slave.devNum, slave.protoType, ask⟩
  match slave.syncClass, slave.param, ext with
  | .dlt645, .dlt645 meter, .dlt645 addr op => poll (.dlt645 meter addr op)
  | .mbus603, .mbus603 meter, .mbus603 addr op => poll (.mbus603 meter addr op)
  | .dust, _, .dust addr op => poll (.dust addr op)
  | .smf, _, .smf addr op => poll (.smf addr op)
  | .dh, .dh sid type, _ => poll (.dh sid type)
  | _, _, _ => none

/-- A poll that the plan of a variable list holds. -/
def MeterPlanned (vars : List ExtData) (poll : MeterPoll) : Prop :=
  ∃ slave ∈ creatSyncSlaveLink vars, ∃ ext ∈ slave.extList, meterPollOf slave ext = some poll

/-- The parameters of a variable are those of the meter that is asked. Dust and Smf devices are meters
themselves. -/
def MeterAsk.sameMeter (data : ExtData) : MeterAsk → Bool
  | .dlt645 meter _ _ => data.xIo.param.dlt645.addr = meter
  | .mbus603 meter _ _ => data.xIo.param.mbus603.addr = meter
  | .dust _ _ | .smf _ _ => true
  | .dh sid type => data.xIo.param.dh.sid = sid && data.xIo.param.dh.type = type

/-- A variable is enabled and of the device, protocol and meter of a poll. -/
def MeterPoll.owns (poll : MeterPoll) (data : ExtData) : Bool :=
  data.bEnable && data.xIo.usDevType.toNat = poll.devType.toNat && data.xIo.usDevNum.toNat =
    poll.devNum.toNat &&
    data.xIo.usProtoType.toNat = poll.protoType.toNat && poll.ask.sameMeter data

/-- What the devices answer. -/
structure MeterAnswer where
  dlt645 : UInt32
  mbus603 : Mbus603Result
  dust : DustResultData
  smf : InstrumentData
  dh : List UInt8 → UInt64

/-- The delivery of an answer, as in `vVarManage_ExtDataRefreshTask`. -/
def meterRefresh (env : RefreshEnv) (cfg : ℕ → ErrCfg) (vars : List ExtData) (answer : MeterAnswer)
    (poll : MeterPoll) (st : PollState) : PollState :=
  match poll.ask with
  | .dlt645 meter addr op => refreshExtDataWithDlt645 env vars meter addr op answer.dlt645 st
  | .mbus603 _ addr op => refreshExtDataWithMbus603 env vars addr op.toUInt8 answer.mbus603 st
  | .dust addr op => refreshExtDataWithDust env vars addr op answer.dust st
  | .smf addr op => refreshExtDataWithSmf env vars addr op answer.smf st
  | .dh sid type => refreshExtDataListWithDh env cfg vars sid type answer.dh st

/-- The error path of a protocol. The refresh task has the calls of those for Dust, Smf and Dh
commented out. -/
def meterTryClear (cfg : ℕ → ErrCfg) (vars : List ExtData) (poll : MeterPoll) (st : PollState) :
    PollState :=
  match poll.ask with
  | .dlt645 meter addr op => dlt645TryClearExtDataWithErr cfg vars meter addr op st
  | .mbus603 _ _ _ => st
  | .dust addr op => dustTryClearExtDataWithErr cfg vars addr op st
  | .smf addr op => smfTryClearExtDataWithErr cfg vars addr op st
  | .dh sid type => dhTryClearExtDataWithErr cfg vars sid type st

/-- Two states have the same value and error fields of the variable at a position. -/
def SameAt (i : ℕ) (st st' : PollState) : Prop :=
  st'.refresh.values i = st.refresh.values i ∧ st'.btErrNum i = st.btErrNum i ∧
    st'.bErrFlag i = st.bErrFlag i

/-- A variable that an answer or the error path changes is one of the polled meter. -/
def MeterIsolated (vars : List ExtData) (poll : MeterPoll) : Prop :=
  ∀ env cfg answer st i data, vars[i]? = some data →
    ¬ (SameAt i st (meterRefresh env cfg vars answer poll st) ∧
    SameAt i st (meterTryClear cfg vars poll st)) →
      poll.owns data = true

/-- The search finds a variable with registers. -/
def Finds (vars : List ExtData) (finds : ExtData → Bool) : Prop :=
  ∃ found, vars.find? finds = some found ∧ 0 < typeRegs found.xIo.btInVarType

/-- The delivery for a poll comes to a refresh at an internal address. -/
def RefreshReaches (vars : List ExtData) (poll : MeterPoll) (usAddress : UInt16) : Prop :=
  match poll.ask with
  | .dlt645 meter addr op => usAddress = addr ∧ Finds vars (dlt645Finds meter addr op)
  | .mbus603 _ addr op =>
    usAddress = addr ∧ (op.toUInt8 ≠ 0 ∧ op.toUInt8.toNat ≤ 12) ∧
      Finds vars (mbus603Finds addr op.toUInt8)
  | .dust addr op => usAddress = addr ∧ (op ≠ 0 ∧ op.toNat ≤ 8) ∧ Finds vars (dustFinds addr op)
  | .smf addr op => usAddress = addr ∧ (op ≠ 0 ∧ op.toNat ≤ 10) ∧ Finds vars (smfFinds addr op)
  | .dh sid type => ∃ data ∈ vars, dhAsks sid type data = true ∧ data.xIo.usAddr = usAddress ∧
      Finds vars (dhFinds data.xIo.usAddr sid type data.xIo.param.dh.key)

/-- The variable at a position is the first that a search finds. -/
def FoundAt (vars : List ExtData) (finds : ExtData → Bool) (i : ℕ) : Prop :=
  ∃ data, vars.zipIdx.find? (fun x => finds x.1) = some (data, i)

/-- The error path for a poll comes to the variable at a position. -/
def ClearReaches (vars : List ExtData) (poll : MeterPoll) (i : ℕ) : Prop :=
  match poll.ask with
  | .dlt645 meter addr op => FoundAt vars (dlt645Finds meter addr op) i
  | .mbus603 _ _ _ => False
  | .dust addr op => FoundAt vars (dustFinds addr op) i
  | .smf addr op => FoundAt vars (smfFinds addr op) i
  | .dh sid type => ∃ data ∈ vars, dhAsks sid type data = true ∧
      FoundAt vars (fun other => dhAsks sid type other && other.xIo.usAddr = data.xIo.usAddr) i

/-- The first variable that covers the address of a refresh, and the variable that the error path
comes to, are of the polled meter. -/
def MeterSafe (vars : List ExtData) (poll : MeterPoll) : Prop :=
  (∀ usAddress, RefreshReaches vars poll usAddress →
    ∀ data i, coveringNode vars usAddress.toNat = some (data, i) → poll.owns data = true) ∧
  ∀ i data, ClearReaches vars poll i → vars[i]? = some data → poll.owns data = true

/-- Nothing changes from a state to itself. -/
theorem SameAt.refl (i : ℕ) (st : PollState) : SameAt i st st := ⟨rfl, rfl, rfl⟩

/-- Steps that change nothing can follow each other. -/
theorem SameAt.trans {i : ℕ} {st st' st'' : PollState} (h : SameAt i st st') (h' : SameAt i st' st'') :
    SameAt i st st'' :=
  ⟨h'.1.trans h.1, h'.2.1.trans h.2.1, h'.2.2.trans h.2.2⟩

/-- A loop of steps that change nothing changes nothing. -/
theorem SameAt.foldl {i : ℕ} {step : PollState → ExtData → PollState} {nodes : List ExtData}
    (h : ∀ data ∈ nodes, ∀ st, SameAt i st (step st data)) (st : PollState) :
    SameAt i st (nodes.foldl step st) := by
  refine List.foldlRecOn (motive := fun st' : PollState => SameAt i st st') nodes step
    (SameAt.refl i st) ?_
  intro st' hsame data hdata
  exact hsame.trans (h data hdata st')

/-- A refresh changes only the variable that covers its address first. -/
theorem masterRefreshPolled_same {env : RefreshEnv} {vars : List ExtData} {usAddress i : ℕ}
    (h : ∀ data, coveringNode vars usAddress ≠ some (data, i)) (st : PollState) :
    SameAt i st (masterRefreshPolled env vars st usAddress) := by
  refine ⟨masterRefresh_values h, ?_, ?_⟩
  · simp only [masterRefreshPolled]
    cases hnode : coveringNode vars usAddress with
    | none => rfl
    | some x =>
      obtain ⟨data, j⟩ := x
      exact Function.update_of_ne (by rintro rfl; exact h data hnode) _ _
  · simp only [masterRefreshPolled]
    cases hnode : coveringNode vars usAddress with
    | none => rfl
    | some x =>
      obtain ⟨data, j⟩ := x
      exact Function.update_of_ne (by rintro rfl; exact h data hnode) _ _

/-- Storing a number changes only the variable that covers the address first. -/
theorem meterStore_same {env : RefreshEnv} {vars : List ExtData} {addr : UInt16} {i : ℕ}
    (h : ∀ data, coveringNode vars addr.toNat ≠ some (data, i)) (limit : ℕ) (number : MeterNumber)
    (type : EVarType)
    (st : PollState) : SameAt i st (meterStore env vars addr limit number type st) :=
  masterRefreshPolled_same h _

/-- The error path changes only the variable that its search finds. -/
theorem tryClearFound_same {cfg : ℕ → ErrCfg} {vars : List ExtData} {finds : ExtData → Bool} {i : ℕ}
    (h : ¬ FoundAt vars finds i) (marks : Bool) (st : PollState) :
    SameAt i st (tryClearFound cfg vars finds marks st) := by
  unfold tryClearFound
  cases hfound : vars.zipIdx.find? fun x => finds x.1 with
  | none => exact SameAt.refl i st
  | some x =>
    obtain ⟨data, j⟩ := x
    have hne : i ≠ j := by
      rintro rfl
      exact h ⟨data, hfound⟩
    obtain ⟨hnum, hvalue⟩ := tryClearNode_other (cfg j) st data hne
    have hflag : (tryClearNode (cfg j) st data j).bErrFlag i = st.bErrFlag i := by
      rw [tryClearNode_bErrFlag]
      exact Function.update_of_ne hne _ _
    cases marks with
    | true => exact ⟨hvalue, hnum, hflag⟩
    | false => exact ⟨hvalue, hnum, rfl⟩

/-- A step behind a search that changes nothing if the search leads somewhere. -/
theorem withFound_same {vars : List ExtData} {finds : ExtData → Bool}
    {handle : EVarType → PollState → PollState}
    {i : ℕ} (h : Finds vars finds → ∀ type st, SameAt i st (handle type st)) (st : PollState) :
    SameAt i st (withFound vars finds handle st) := by
  unfold withFound
  cases hfound : vars.find? finds with
  | none => exact SameAt.refl i st
  | some data =>
    simp only
    split
    · next hregs => exact h ⟨data, hfound, hregs⟩ _ st
    · exact SameAt.refl i st

/-- A step behind a `switch` changes only the variable that covers the address first, and only for
an op code with a reading. -/
theorem meterStoreReading_same {α : Type} {env : RefreshEnv} {vars : List ExtData}
    {addr : UInt16} {i : ℕ}
    {readings : List α} {op : UInt8}
    (h : op ≠ 0 ∧ op.toNat ≤ readings.length →
      ∀ data, coveringNode vars addr.toNat ≠ some (data, i)) (limit : ℕ)
    (keep : α → MeterNumber) (type : EVarType) (st : PollState) :
    SameAt i st (meterStoreReading env vars addr limit ((selectReading readings op).map keep)
      type st) := by
  unfold meterStoreReading
  cases hreading : selectReading readings op with
  | none => exact SameAt.refl i st
  | some reading =>
    have hop : op ≠ 0 ∧ op.toNat ≤ readings.length := by
      by_contra hnot
      rw [(selectReading_eq_none_iff readings op).mpr hnot] at hreading
      cases hreading
    exact meterStore_same (h hop) limit _ type st

/-- The delivery changes only the variables that its refreshes and its error path come to. -/
theorem meterRefresh_same {vars : List ExtData} {poll : MeterPoll} {i : ℕ}
    (hrefresh : ∀ usAddress, RefreshReaches vars poll usAddress →
      ∀ data, coveringNode vars usAddress.toNat ≠ some (data, i))
    (hclear : ¬ ClearReaches vars poll i) (env : RefreshEnv) (cfg : ℕ → ErrCfg) (answer : MeterAnswer)
    (st : PollState) : SameAt i st (meterRefresh env cfg vars answer poll st) := by
  obtain ⟨devType, devNum, protoType, ask⟩ := poll
  cases ask with
  | dlt645 meter addr op =>
    exact withFound_same (fun hfinds type st =>
      meterStore_same (hrefresh addr ⟨rfl, hfinds⟩) _ _ type st) st
  | mbus603 meter addr op =>
    refine withFound_same (fun hfinds type st => ?_) st
    exact meterStoreReading_same (fun hop => hrefresh addr ⟨rfl, hop, hfinds⟩) 2 _ type st
  | dust addr op =>
    refine withFound_same (fun hfinds type st => ?_) st
    exact meterStoreReading_same (fun hop => hrefresh addr ⟨rfl, hop, hfinds⟩) 2 _ type st
  | smf addr op =>
    refine withFound_same (fun hfinds type st => ?_) st
    exact meterStoreReading_same (fun hop => hrefresh addr ⟨rfl, hop, hfinds⟩) 2 _ type st
  | dh sid type =>
    refine SameAt.foldl (fun data hdata st => ?_) st
    split
    · next hasks =>
      refine withFound_same (fun hfinds inVarType st => ?_) st
      simp only
      split
      · exact tryClearFound_same (fun hfound => hclear ⟨data, hdata, hasks, hfound⟩) false st
      · exact meterStore_same (hrefresh data.xIo.usAddr ⟨data, hdata, hasks, rfl, hfinds⟩) 2
          _ inVarType st
    · exact SameAt.refl i st

/-- The error path changes only the variables that it comes to. -/
theorem meterTryClear_same {vars : List ExtData} {poll : MeterPoll} {i : ℕ}
    (h : ¬ ClearReaches vars poll i)
    (cfg : ℕ → ErrCfg) (st : PollState) : SameAt i st (meterTryClear cfg vars poll st) := by
  obtain ⟨devType, devNum, protoType, ask⟩ := poll
  cases ask with
  | dlt645 meter addr op => exact tryClearFound_same h true st
  | mbus603 meter addr op => exact SameAt.refl i st
  | dust addr op => exact tryClearFound_same h false st
  | smf addr op => exact tryClearFound_same h false st
  | dh sid type =>
    refine SameAt.foldl (fun data hdata st => ?_) st
    split
    · next hasks => exact tryClearFound_same (fun hfound => h ⟨data, hdata, hasks, hfound⟩) false st
    · exact SameAt.refl i st

/-- Under the condition an answer and the error path stay with the variables of the polled meter. -/
theorem meterIsolated_of_safe {vars : List ExtData} {poll : MeterPoll} (h : MeterSafe vars poll) :
    MeterIsolated vars poll := by
  obtain ⟨hrefresh, hclear⟩ := h
  intro env cfg answer st i data hdata hchanged
  by_contra hnot
  have hunreached : ¬ ClearReaches vars poll i := fun hreaches => hnot (hclear i data hreaches hdata)
  refine hchanged ⟨meterRefresh_same ?_ hunreached env cfg answer st,
    meterTryClear_same hunreached cfg st⟩
  intro usAddress hreaches other hnode
  have hother := coveringNode_getElem? hnode
  rw [hdata] at hother
  cases hother
  exact hnot (hrefresh usAddress hreaches data i hnode)

/-- What one step of a loop sets, and every step keeps, holds at the end. -/
theorem foldl_of_mem {α β : Type} {step : β → α → β} {holds : β → Prop} {nodes : List α} {node : α}
    (hnode : node ∈ nodes) (hset : ∀ st, holds (step st node))
    (hkeep : ∀ st x, holds st → holds (step st x)) (st : β) : holds (nodes.foldl step st) := by
  have hrest : ∀ (nodes : List α) (st : β), holds st → holds (nodes.foldl step st) := by
    intro nodes
    induction nodes with
    | nil => exact fun _ h => h
    | cons x nodes ih => exact fun st h => ih (step st x) (hkeep st x h)
  induction nodes generalizing st with
  | nil => cases hnode
  | cons x nodes ih =>
    rw [List.foldl_cons]
    cases List.mem_cons.mp hnode with
    | inl hx =>
      subst hx
      exact hrest nodes _ (hset st)
    | inr hmem => exact ih hmem (step st x)

/-- A step behind a search that leads somewhere is taken. -/
theorem withFound_finds {vars : List ExtData} {finds : ExtData → Bool}
    {handle : EVarType → PollState → PollState}
    {holds : PollState → Prop} (h : Finds vars finds) {st : PollState}
    (hhandle : ∀ type, holds (handle type st)) :
    holds (withFound vars finds handle st) := by
  obtain ⟨found, hfound, hregs⟩ := h
  rw [withFound, hfound]
  simp only
  rw [if_pos hregs]
  exact hhandle _

/-- A step behind a search keeps what its handling keeps. -/
theorem withFound_keeps {vars : List ExtData} {finds : ExtData → Bool}
    {handle : EVarType → PollState → PollState}
    {holds : PollState → Prop} {st : PollState} (h : holds st)
    (hhandle : ∀ type, holds (handle type st)) :
    holds (withFound vars finds handle st) := by
  unfold withFound
  split
  · exact h
  · split
    · exact hhandle _
    · exact h

/-- Storing a number takes the mark of the variable that covers the address first. -/
theorem meterStore_unmarks {env : RefreshEnv} {vars : List ExtData} {addr : UInt16}
    {data : ExtData} {i : ℕ}
    (hnode : coveringNode vars addr.toNat = some (data, i)) (limit : ℕ) (number : MeterNumber)
    (type : EVarType)
    (st : PollState) : (meterStore env vars addr limit number type st).bErrFlag i = false := by
  simp [meterStore, masterRefreshPolled, hnode]

/-- Storing a number marks no variable. -/
theorem meterStore_keeps {env : RefreshEnv} {vars : List ExtData} {addr : UInt16} {i : ℕ} (limit : ℕ)
    (number : MeterNumber) (type : EVarType) {st : PollState} (h : st.bErrFlag i = false) :
    (meterStore env vars addr limit number type st).bErrFlag i = false := by
  cases hnode : coveringNode vars addr.toNat with
  | none => simp [meterStore, masterRefreshPolled, hnode, h]
  | some x =>
    obtain ⟨data, j⟩ := x
    by_cases hj : i = j
    · exact meterStore_unmarks (hj ▸ hnode) limit number type st
    · simp [meterStore, masterRefreshPolled, hnode, Function.update_of_ne hj, h]

/-- A delivery of numbers takes the mark of every variable that it refreshes. -/
theorem meterRefresh_unmarks {vars : List ExtData} {poll : MeterPoll} {usAddress : UInt16}
    {data : ExtData} {i : ℕ}
    (hreaches : RefreshReaches vars poll usAddress)
    (hnode : coveringNode vars usAddress.toNat = some (data, i))
    {env : RefreshEnv} (hnumber : ∀ x, env.ops.ne x x = false) (cfg : ℕ → ErrCfg) (answer : MeterAnswer)
    (st : PollState) : (meterRefresh env cfg vars answer poll st).bErrFlag i = false := by
  let Unmarked (st : PollState) : Prop := st.bErrFlag i = false
  have hreading : ∀ {α : Type} {readings : List α} {op : UInt8}, op ≠ 0 ∧ op.toNat ≤ readings.length →
      ∀ (keep : α → MeterNumber) (type : EVarType),
        Unmarked (meterStoreReading env vars usAddress 2 ((selectReading readings op).map keep)
        type st) := by
    intro α readings op hop keep type
    cases hselect : selectReading readings op with
    | none => exact absurd hop ((selectReading_eq_none_iff readings op).mp hselect)
    | some reading => exact meterStore_unmarks hnode 2 _ type st
  obtain ⟨devType, devNum, protoType, ask⟩ := poll
  cases ask with
  | dlt645 meter addr op =>
    obtain ⟨rfl, hfinds⟩ := hreaches
    exact @withFound_finds _ _ _ Unmarked hfinds st fun type => meterStore_unmarks hnode 4 _ type st
  | mbus603 meter addr op =>
    obtain ⟨rfl, hop, hfinds⟩ := hreaches
    exact @withFound_finds _ _ _ Unmarked hfinds st fun type => hreading hop _ type
  | dust addr op =>
    obtain ⟨rfl, hop, hfinds⟩ := hreaches
    exact @withFound_finds _ _ _ Unmarked hfinds st fun type => hreading hop _ type
  | smf addr op =>
    obtain ⟨rfl, hop, hfinds⟩ := hreaches
    exact @withFound_finds _ _ _ Unmarked hfinds st fun type => hreading hop _ type
  | dh sid type =>
    obtain ⟨node, hmem, hasks, rfl, hfinds⟩ := hreaches
    refine @foldl_of_mem _ _ _ Unmarked vars node hmem ?_ ?_ st
    · intro st
      rw [if_pos hasks]
      refine @withFound_finds _ _ _ Unmarked hfinds st fun inVarType => ?_
      simp only [hnumber, Bool.false_eq_true, if_false]
      exact meterStore_unmarks hnode 2 _ inVarType st
    · intro st other hunmarked
      split
      · refine @withFound_keeps _ _ _ Unmarked st hunmarked fun inVarType => ?_
        simp only [hnumber, Bool.false_eq_true, if_false]
        exact meterStore_keeps 2 _ inVarType hunmarked
      · exact hunmarked

/-- A counted error is not zero, also at the limit. -/
theorem countErr_ne_zero (n : UInt8) : (if 255 ≤ n then 0 else n) + 1 ≠ 0 := by
  intro h
  have hsum := congrArg UInt8.toNat h
  rw [UInt8.toNat_add] at hsum
  split at hsum
  · cases hsum
  · next hlt =>
    have hbound : n.toNat < 255 := by simpa [UInt8.le_iff_toNat_le] using hlt
    change (n.toNat + 1) % 256 = 0 at hsum
    omega

/-- A variable that counts its errors up to 255 has some behind the error path that comes to it. -/
theorem tryClearFound_counts {vars : List ExtData} {finds : ExtData → Bool} {i : ℕ} (marks : Bool)
    (st : PollState)
    (h : FoundAt vars finds i ∨ st.btErrNum i ≠ 0) :
    (tryClearFound (fun _ => ⟨true, 255⟩) vars finds marks st).btErrNum i ≠ 0 := by
  have hcounts : ∀ data j, (tryClearNode ⟨true, 255⟩ st data j).btErrNum j =
      (if 255 ≤ st.btErrNum j then 0 else st.btErrNum j) + 1 := by
    intro data j
    simp only [tryClearNode, if_true]
    split
    · simp
    · simp
  unfold tryClearFound
  cases hfound : vars.zipIdx.find? fun x => finds x.1 with
  | none =>
    cases h with
    | inl hat =>
      obtain ⟨data, hat⟩ := hat
      rw [hfound] at hat
      cases hat
    | inr hnum => exact hnum
  | some x =>
    obtain ⟨data, j⟩ := x
    have hkept : (tryClearNode ⟨true, 255⟩ st data j).btErrNum i ≠ 0 := by
      by_cases hj : i = j
      · subst hj
        rw [hcounts]
        exact countErr_ne_zero _
      · rw [(tryClearNode_other _ st data hj).1]
        cases h with
        | inl hat =>
          obtain ⟨other, hat⟩ := hat
          rw [hfound] at hat
          cases hat
          exact absurd rfl hj
        | inr hnum => exact hnum
    cases marks with
    | true => exact hkept
    | false => exact hkept

/-- The error path counts an error of every variable that it comes to. -/
theorem meterTryClear_counts {vars : List ExtData} {poll : MeterPoll} {i : ℕ}
    (h : ClearReaches vars poll i)
    (st : PollState) : (meterTryClear (fun _ => ⟨true, 255⟩) vars poll st).btErrNum i ≠ 0 := by
  obtain ⟨devType, devNum, protoType, ask⟩ := poll
  cases ask with
  | dlt645 meter addr op => exact tryClearFound_counts true st (.inl h)
  | mbus603 meter addr op => exact h.elim
  | dust addr op => exact tryClearFound_counts false st (.inl h)
  | smf addr op => exact tryClearFound_counts false st (.inl h)
  | dh sid type =>
    obtain ⟨node, hmem, hasks, hfound⟩ := h
    refine @foldl_of_mem _ _ _ (fun st : PollState => st.btErrNum i ≠ 0) vars node hmem ?_ ?_ st
    · intro st
      rw [if_pos hasks]
      exact tryClearFound_counts false st (.inl hfound)
    · intro st other hcounted
      split
      · exact tryClearFound_counts false st (.inr hcounted)
      · exact hcounted

/-- If an answer and the error path stay with the variables of the polled meter, the searches lead
to such variables only. -/
theorem meterSafe_of_isolated {vars : List ExtData} {poll : MeterPoll} (h : MeterIsolated vars poll) :
    MeterSafe vars poll := by
  let ops : DoubleOps :=
    ⟨fun _ => 0, fun _ => 0, fun _ => 0, fun _ _ => 0, fun _ => true, fun _ _ => false,
    fun _ _ => true, fun _ _ => 0⟩
  let marked : PollState := ⟨⟨fun _ => 0, fun _ => 0⟩, fun _ => 0, fun _ => true⟩
  let answer : MeterAnswer := ⟨0, {}, {}, {}, fun _ => 0⟩
  constructor
  · intro usAddress hreaches data i hnode
    refine h (quietEnv ops) (fun _ => ⟨true, 255⟩) answer marked i data (coveringNode_getElem? hnode) ?_
    rintro ⟨⟨-, -, hflag⟩, -⟩
    have hnumber : ∀ x, (quietEnv ops).ops.ne x x = false := fun _ => rfl
    have hunmarked := meterRefresh_unmarks hreaches hnode hnumber (fun _ => ⟨true, 255⟩) answer marked
    rw [hflag] at hunmarked
    cases hunmarked
  · intro i data hreaches hdata
    refine h (quietEnv ops) (fun _ => ⟨true, 255⟩) answer marked i data hdata ?_
    rintro ⟨-, -, hnum, -⟩
    exact meterTryClear_counts hreaches marked hnum

/-- An answer and the error path stay with the variables of the polled meter exactly when the
searches lead to such variables only. -/
theorem meterIsolated_iff (vars : List ExtData) (poll : MeterPoll) :
    MeterIsolated vars poll ↔ MeterSafe vars poll :=
  ⟨meterSafe_of_isolated, meterIsolated_of_safe⟩

/-- The answer of a Dh device on one network port refreshes a variable of a device on another port
that has the same identifier and type. -/
theorem meterRefresh_crosses_port : ¬ ∀ vars poll, MeterPlanned vars poll → MeterIsolated vars poll := by
  intro h
  let first : ExtData :=
    { xIo := { usDevType := 2, usProtoType := 7, usAddr := 1024, param := { dh := { sid := 1 } } } }
  let second : ExtData :=
    { xIo := { usDevType := 2, usDevNum := 1, usProtoType := 7, usAddr := 1025, param := { dh := { sid := 1 } } } }
  have hplanned : MeterPlanned [first, second] ⟨2, 0, 7, .dh 1 0⟩ :=
    ⟨⟨2, 0, 7, .dh 1 0, [.dh 1024 []]⟩, by decide, .dh 1024 [], by decide, by decide⟩
  have hsafe := meterSafe_of_isolated (h _ _ hplanned)
  have howned :=
    hsafe.1 1025 ⟨second, by decide, by decide, rfl, second, by decide, by decide⟩ second 1
    (by decide)
  exact absurd howned (by decide)

end DasEdge.VarManage
