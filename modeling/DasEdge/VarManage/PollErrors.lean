import DasEdge.VarManage.MasterDelivery

/-!
# Failed and successful polls

A failed poll marks variables in `vVarManage_ModbusMasterTryClearExtDataWithErr` and its ObModbus
twin, a successful one refreshes them in `bVarManage_RefreshExtDataWithModbusMaster` and its twin.
The error paths test the range of the output size and the success paths that of the input size, and
the ObModbus error path halves its count of one instead of the register count, so the two sets of
variables need not be the same.
-/

namespace DasEdge.VarManage

/-- What a variable's error handling is: whether `btErrOp` is `E_ERR_OP_CLEAR`, and `btErrCnt`. -/
structure ErrCfg where
  clears : Bool
  btErrCnt : UInt8

/-- The state of the refresh paths with the error fields of the variables by position. -/
structure PollState where
  refresh : RefreshState
  btErrNum : ℕ → UInt8
  bErrFlag : ℕ → Bool

/-- The two pairs of error and success path. -/
inductive PollPair where
  | modbus | obModbus

/-- `__clear_regs` -/
def clearRegs (s : RefreshState) (usAddr nregs : ℕ) : RefreshState :=
  refreshRegs s (fun _ => 0) usAddr nregs

/-- The test of the error paths, for a poll whose registers end before `stop`. -/
def errSelects (poll : Poll) (stop : ℕ) (data : ExtData) : Bool :=
  data.bEnable && data.xIo.usDevType.toNat = poll.usDevType && data.xIo.usDevNum.toNat =
    poll.usDevNum &&
    data.xIo.param.modbus.btSlaveAddr = poll.btSlaveAddr && poll.addr ≤
      data.xIo.param.modbus.usExtAddr.toNat &&
    typeRegs data.xIo.btOutVarType + data.xIo.param.modbus.usExtAddr.toNat ≤ stop

/-- What an error path does to a variable that it selects. -/
def tryClearNode (cfg : ErrCfg) (st : PollState) (data : ExtData) (i : ℕ) : PollState :=
  let counted : PollState :=
    if cfg.clears then
      let cleared : PollState :=
        if cfg.btErrCnt ≤ st.btErrNum i then
          let refresh := clearRegs st.refresh data.xIo.usAddr.toNat (typeRegs data.xIo.btOutVarType)
          { st with
            refresh := { refresh with values := Function.update refresh.values i 0 }
            btErrNum := Function.update st.btErrNum i 0 }
        else st
      { cleared with btErrNum := Function.update cleared.btErrNum i (cleared.btErrNum i + 1) }
    else st
  { counted with bErrFlag := Function.update counted.bErrFlag i true }

/-- The loop of the error paths. -/
def tryClearExtDataWithErr (cfg : ℕ → ErrCfg) (selects : ExtData → Bool) (vars : List ExtData)
    (st : PollState) : PollState :=
  vars.zipIdx.foldl (fun st x => if selects x.1 then tryClearNode (cfg x.2) st x.1 x.2 else st) st

/-- `vVarManage_ModbusMasterTryClearExtDataWithErr` -/
def modbusMasterTryClearExtDataWithErr (cfg : ℕ → ErrCfg) (vars : List ExtData) (poll : Poll)
    (st : PollState) : PollState :=
  tryClearExtDataWithErr cfg (errSelects poll (poll.addr + poll.size)) vars st

/-- `vVarManage_ObModbusMasterTryClearExtDataWithErr` -/
def obModbusMasterTryClearExtDataWithErr (cfg : ℕ → ErrCfg) (vars : List ExtData) (poll : Poll)
    (st : PollState) : PollState :=
  tryClearExtDataWithErr cfg (errSelects poll (poll.addr + (poll.size + 1 / 2))) vars st

/-- `__MasterRefreshExtDataWithRegs` with the error fields. -/
def masterRefreshPolled (env : RefreshEnv) (vars : List ExtData) (st : PollState) (usAddress : ℕ) :
    PollState where
  refresh := masterRefreshExtDataWithRegs env vars st.refresh usAddress
  btErrNum :=
    match coveringNode vars usAddress with
    | none => st.btErrNum
    | some (_, i) => Function.update st.btErrNum i 0
  bErrFlag :=
    match coveringNode vars usAddress with
    | none => st.bErrFlag
    | some (_, i) => Function.update st.bErrFlag i false

/-- One node of the success paths, for a poll of `usNRegs` registers. -/
def masterDeliverPolled (env : RefreshEnv) (vars : List ExtData) (poll : Poll) (usNRegs : ℕ)
    (pucRegBuffer : ℕ → UInt8) (st : PollState) (data : ExtData) : PollState :=
  if masterSelects poll.usDevType poll.usDevNum poll.btSlaveAddr poll.addr usNRegs data then
    let ofs := data.xIo.param.modbus.usExtAddr.toNat - poll.addr
    masterRefreshPolled env vars
      { st with
        refresh := refreshRegs st.refresh (fun k => pucRegBuffer (2 * ofs + k)) data.xIo.usAddr.toNat
          (typeRegs data.xIo.btInVarType) }
      data.xIo.usAddr.toNat
  else st

/-- `bVarManage_RefreshExtDataWithModbusMaster` with the error fields. -/
def modbusMasterRefreshPolled (env : RefreshEnv) (vars : List ExtData) (poll : Poll)
    (pucRegBuffer : ℕ → UInt8)
    (st : PollState) : PollState :=
  vars.foldl (masterDeliverPolled env vars poll poll.size pucRegBuffer) st

/-- `bVarManage_RefreshExtDataWithObModbusMaster` with the error fields. -/
def obModbusMasterRefreshPolled (env : RefreshEnv) (vars : List ExtData) (poll : Poll)
    (pucRegBuffer : ℕ → UInt8)
    (st : PollState) : PollState :=
  vars.foldl (masterDeliverPolled env vars poll ((poll.size + 1) / 2) pucRegBuffer) st

/-- The error path of a pair. -/
def PollPair.errPath : PollPair → (ℕ → ErrCfg) → List ExtData → Poll → PollState → PollState
  | .modbus => modbusMasterTryClearExtDataWithErr
  | .obModbus => obModbusMasterTryClearExtDataWithErr

/-- The success path of a pair. -/
def PollPair.okPath : PollPair → RefreshEnv → List ExtData → Poll → (ℕ → UInt8) → PollState → PollState
  | .modbus => modbusMasterRefreshPolled
  | .obModbus => obModbusMasterRefreshPolled

/-- The register before which the error path takes a poll to end. -/
def PollPair.errStop : PollPair → Poll → ℕ
  | .modbus, poll => poll.addr + poll.size
  | .obModbus, poll => poll.addr + poll.size

/-- The number of registers that the success path takes a poll to have. -/
def PollPair.okRegs : PollPair → Poll → ℕ
  | .modbus, poll => poll.size
  | .obModbus, poll => (poll.size + 1) / 2

/-- A state with every variable marked, or none. -/
def PollState.marked (st : PollState) (mark : Bool) : PollState := { st with bErrFlag := fun _ => mark }

/-- The variables that the error path marks, from no marks, are those that the success path
refreshes, which takes their marks away when all have one. -/
def SamePolled (pair : PollPair) (vars : List ExtData) (poll : Poll) : Prop :=
  ∀ cfg env pucRegBuffer (st : PollState) i,
    (pair.errPath cfg vars poll (st.marked false)).bErrFlag i = true ↔
      (pair.okPath env vars poll pucRegBuffer (st.marked true)).bErrFlag i = false

/-- A variable passes the error path's test of its output range exactly when it is the first to
cover the address of a variable that passes the success path's test of its input range. -/
def PollAgrees (pair : PollPair) (vars : List ExtData) (poll : Poll) : Prop :=
  ∀ i data, vars[i]? = some data →
    (errSelects poll (pair.errStop poll) data = true ↔
      ∃ other ∈ vars,
        masterSelects poll.usDevType poll.usDevNum poll.btSlaveAddr poll.addr
        (pair.okRegs poll) other = true ∧
          coveringNode vars other.xIo.usAddr.toNat = some (data, i))

/-- The loop of the success path refreshes as it does without the error fields. -/
theorem modbusMasterRefreshPolled_refresh (env : RefreshEnv) (vars : List ExtData) (poll : Poll)
    (pucRegBuffer : ℕ → UInt8) (st : PollState) :
    (modbusMasterRefreshPolled env vars poll pucRegBuffer st).refresh =
      deliverPoll env vars poll pucRegBuffer st.refresh := by
  have hfold : ∀ nodes : List ExtData, ∀ st : PollState,
      (nodes.foldl (masterDeliverPolled env vars poll poll.size pucRegBuffer) st).refresh =
        nodes.foldl (masterDeliver env vars poll.usDevType poll.usDevNum poll.btSlaveAddr
        poll.addr poll.size
          pucRegBuffer) st.refresh := by
    intro nodes
    induction nodes with
    | nil => exact fun _ => rfl
    | cons data nodes ih =>
      intro st
      rw [List.foldl_cons, List.foldl_cons, ih]
      congr 1
      rw [masterDeliverPolled, masterDeliver]
      split
      · rfl
      · rfl
  exact hfold vars st

/-- A selected variable is marked, and no other. -/
theorem tryClearNode_bErrFlag (cfg : ErrCfg) (st : PollState) (data : ExtData) (i : ℕ) :
    (tryClearNode cfg st data i).bErrFlag = Function.update st.bErrFlag i true := by
  simp only [tryClearNode]
  split
  · split
    · rfl
    · rfl
  · rfl

/-- A selected variable's handling leaves the value and the error count of every other alone. -/
theorem tryClearNode_other (cfg : ErrCfg) (st : PollState) (data : ExtData) {i j : ℕ} (h : j ≠ i) :
    (tryClearNode cfg st data i).btErrNum j = st.btErrNum j ∧
      (tryClearNode cfg st data i).refresh.values j = st.refresh.values j := by
  simp only [tryClearNode]
  split
  · split
    · simp [h, clearRegs, refreshRegs]
    · simp [h]
  · exact ⟨rfl, rfl⟩

/-- The error path marks the variables that pass its test. -/
theorem tryClearExtDataWithErr_marks (cfg : ℕ → ErrCfg) (selects : ExtData → Bool) (vars : List ExtData)
    (st : PollState) (i : ℕ) :
    (tryClearExtDataWithErr cfg selects vars st).bErrFlag i = true ↔
      st.bErrFlag i = true ∨ ∃ data, vars[i]? = some data ∧ selects data = true := by
  have hfold : ∀ nodes : List (ExtData × ℕ), ∀ st : PollState,
      (nodes.foldl (fun st x => if selects x.1 then tryClearNode (cfg x.2) st x.1 x.2 else st)
        st).bErrFlag i = true ↔
        st.bErrFlag i = true ∨ ∃ data, (data, i) ∈ nodes ∧ selects data = true := by
    intro nodes
    induction nodes with
    | nil => simp
    | cons x nodes ih =>
      intro st
      obtain ⟨data, j⟩ := x
      rw [List.foldl_cons, ih]
      simp only [List.mem_cons, Prod.mk.injEq]
      split
      · next hselect =>
        rw [tryClearNode_bErrFlag]
        by_cases hj : i = j
        · subst hj
          simp only [Function.update_self, true_or, true_iff]
          exact .inr ⟨data, .inl ⟨rfl, trivial⟩, hselect⟩
        · rw [Function.update_of_ne hj]
          simp [hj]
      · next hselect =>
        refine or_congr_right ⟨fun ⟨other, hmem, h⟩ => ⟨other, .inr hmem, h⟩, ?_⟩
        rintro ⟨other, hmem | hmem, h⟩
        · exact absurd (hmem.1 ▸ h) hselect
        · exact ⟨other, hmem, h⟩
  refine (hfold vars.zipIdx st).trans (or_congr_right (exists_congr fun data => ?_))
  rw [List.mem_zipIdx_iff_getElem?]

/-- The error path changes the value and the error count of no variable that it does not mark. -/
theorem tryClearExtDataWithErr_unmarked (cfg : ℕ → ErrCfg) (selects : ExtData → Bool)
    (vars : List ExtData)
    (st : PollState) {i : ℕ} (h : ∀ data, vars[i]? = some data → selects data = false) :
    (tryClearExtDataWithErr cfg selects vars st).btErrNum i = st.btErrNum i ∧
      (tryClearExtDataWithErr cfg selects vars st).refresh.values i = st.refresh.values i := by
  refine List.foldlRecOn
    (motive := fun t : PollState => t.btErrNum i = st.btErrNum i ∧
      t.refresh.values i = st.refresh.values i)
    vars.zipIdx _ ⟨rfl, rfl⟩ ?_
  rintro t ⟨hnum, hvalue⟩ ⟨data, j⟩ hmem
  split
  · next hselect =>
    have hj : i ≠ j := by
      rintro rfl
      rw [h data (List.mem_zipIdx_iff_getElem?.mp hmem)] at hselect
      cases hselect
    obtain ⟨hnum', hvalue'⟩ := tryClearNode_other (cfg j) t data hj
    exact ⟨hnum'.trans hnum, hvalue'.trans hvalue⟩
  · exact ⟨hnum, hvalue⟩

/-- The success path takes away the marks of the variables that it refreshes. -/
theorem masterDeliverPolled_unmarks (env : RefreshEnv) (vars : List ExtData) (poll : Poll) (usNRegs : ℕ)
    (pucRegBuffer : ℕ → UInt8) (st : PollState) (i : ℕ) :
    (vars.foldl (masterDeliverPolled env vars poll usNRegs pucRegBuffer) st).bErrFlag i = false ↔
      st.bErrFlag i = false ∨ ∃ other ∈ vars,
        masterSelects poll.usDevType poll.usDevNum poll.btSlaveAddr poll.addr usNRegs other = true ∧
          ∃ data, coveringNode vars other.xIo.usAddr.toNat = some (data, i) := by
  have hfold : ∀ nodes : List ExtData, ∀ st : PollState,
      (nodes.foldl (masterDeliverPolled env vars poll usNRegs pucRegBuffer) st).bErrFlag i = false ↔
        st.bErrFlag i = false ∨ ∃ other ∈ nodes,
          masterSelects poll.usDevType poll.usDevNum poll.btSlaveAddr poll.addr usNRegs other = true ∧
            ∃ data, coveringNode vars other.xIo.usAddr.toNat = some (data, i) := by
    intro nodes
    induction nodes with
    | nil => simp
    | cons node nodes ih =>
      intro st
      rw [List.foldl_cons, ih, masterDeliverPolled]
      simp only [List.mem_cons, exists_eq_or_imp, ← or_assoc]
      refine or_congr_left ?_
      split
      · next hselect =>
        simp only [hselect, true_and, masterRefreshPolled]
        cases hnode : coveringNode vars node.xIo.usAddr.toNat with
        | none => simp
        | some x =>
          obtain ⟨data, j⟩ := x
          by_cases hj : i = j
          · subst hj
            simp
          · simp [hj, Ne.symm hj]
      · next hselect => simp [hselect]
  exact hfold vars st

/-- The error path of a pair marks the variables that pass the test of their output range. -/
theorem PollPair.errPath_marks (pair : PollPair) (cfg : ℕ → ErrCfg) (vars : List ExtData) (poll : Poll)
    (st : PollState) (i : ℕ) :
    (pair.errPath cfg vars poll (st.marked false)).bErrFlag i = true ↔
      ∃ data, vars[i]? = some data ∧ errSelects poll (pair.errStop poll) data = true := by
  cases pair with
  | modbus =>
    exact (tryClearExtDataWithErr_marks cfg _ vars _ i).trans (by simp [PollState.marked, errStop])
  | obModbus =>
    exact (tryClearExtDataWithErr_marks cfg _ vars _ i).trans (by simp [PollState.marked, errStop])

/-- The success path of a pair refreshes the variables that are the first to cover the address of
one that passes the test of its input range. -/
theorem PollPair.okPath_unmarks (pair : PollPair) (env : RefreshEnv) (vars : List ExtData) (poll : Poll)
    (pucRegBuffer : ℕ → UInt8) (st : PollState) (i : ℕ) :
    (pair.okPath env vars poll pucRegBuffer (st.marked true)).bErrFlag i = false ↔
      ∃ other ∈ vars,
        masterSelects poll.usDevType poll.usDevNum poll.btSlaveAddr poll.addr
        (pair.okRegs poll) other = true ∧
          ∃ data, coveringNode vars other.xIo.usAddr.toNat = some (data, i) := by
  cases pair with
  | modbus =>
    refine (masterDeliverPolled_unmarks env vars poll _ pucRegBuffer _ i).trans ?_
    simp [PollState.marked, okRegs]
  | obModbus =>
    refine (masterDeliverPolled_unmarks env vars poll _ pucRegBuffer _ i).trans ?_
    simp [PollState.marked, okRegs]

/-- If a failed and a successful poll touch the same variables, the tests of their ranges agree. -/
theorem pollAgrees_of_same {pair : PollPair} {vars : List ExtData} {poll : Poll}
    (h : SamePolled pair vars poll) :
    PollAgrees pair vars poll := by
  intro i data hdata
  let st : PollState := ⟨⟨fun _ => 0, fun _ => 0⟩, fun _ => 0, fun _ => false⟩
  have hsame :=
    h (fun _ => ⟨false, 0⟩) (quietEnv ⟨fun _ => 0, fun _ => 0, fun _ => 0, fun _ _ => 0,
    fun _ => true,
    fun _ _ => true, fun _ _ => true, fun _ _ => 0⟩) (fun _ => 0) st i
  rw [pair.errPath_marks, pair.okPath_unmarks] at hsame
  constructor
  · intro hselect
    obtain ⟨other, hother, hselect', found, hnode⟩ := hsame.mp ⟨data, hdata, hselect⟩
    have hfound := coveringNode_getElem? hnode
    rw [hdata] at hfound
    cases hfound
    exact ⟨other, hother, hselect', hnode⟩
  · rintro ⟨other, hother, hselect, hnode⟩
    obtain ⟨found, hfound, hselect'⟩ := hsame.mpr ⟨other, hother, hselect, data, hnode⟩
    rw [hdata] at hfound
    cases hfound
    exact hselect'

/-- If the tests of their ranges agree, a failed and a successful poll touch the same variables. -/
theorem samePolled_of_agrees {pair : PollPair} {vars : List ExtData} {poll : Poll}
    (h : PollAgrees pair vars poll) :
    SamePolled pair vars poll := by
  intro cfg env pucRegBuffer st i
  rw [pair.errPath_marks, pair.okPath_unmarks]
  constructor
  · rintro ⟨data, hdata, hselect⟩
    obtain ⟨other, hother, hselect', hnode⟩ := (h i data hdata).mp hselect
    exact ⟨other, hother, hselect', data, hnode⟩
  · rintro ⟨other, hother, hselect, data, hnode⟩
    have hdata := coveringNode_getElem? hnode
    exact ⟨data, hdata, (h i data hdata).mpr ⟨other, hother, hselect, hnode⟩⟩

/-- A failed and a successful poll touch the same variables exactly when the tests of their ranges
agree on the variables that are found. -/
theorem pollErrors_same_iff (pair : PollPair) (vars : List ExtData) (poll : Poll) :
    SamePolled pair vars poll ↔ PollAgrees pair vars poll :=
  ⟨pollAgrees_of_same, samePolled_of_agrees⟩

/-- A variable with a 16-bit input and a 32-bit output is refreshed by a poll of its register, but a
failed poll does not mark it. -/
theorem pollErrors_miss_wide_output : ¬ ∀ pair vars poll, SamePolled pair vars poll := by
  intro h
  have hagrees := pollAgrees_of_same
    (h .modbus [{ xIo := { usAddr := 1024, btOutVarType := .int32 } }] ⟨0, 0, 3, 0, 0, 1⟩)
    0 { xIo := { usAddr := 1024, btOutVarType := .int32 } } rfl
  have hmarked := hagrees.mpr ⟨_, List.mem_singleton_self _, by decide, rfl⟩
  exact absurd hmarked (by decide)

end DasEdge.VarManage
