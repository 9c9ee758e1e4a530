import DasEdge.VarManage.RefreshFootprint
import DasEdge.VarManage.SyncSlaveLink

/-!
# Which variables a poll response reaches

The plan groups polls by op code, but the delivery of a response selects variables by device, slave
address and register range only, and then refreshes whichever variable covers the selected one's
internal address first. A response stays with the variables that were polled exactly when both
selections meet.
-/

namespace DasEdge.VarManage

/-- A read request to a Modbus device. -/
structure Poll where
  usDevType : ℕ
  usDevNum : ℕ
  btOpCode : UInt8
  btSlaveAddr : UInt8
  addr : ℕ
  size : ℕ

/-- The requests that `vVarManage_ExtDataRefreshTask` sends for a plan: reads of holding registers (3)
or input registers (4) for each ext node of a Modbus slave node. -/
def IsPoll (vars : List ExtData) (poll : Poll) : Prop :=
  ∃ slave ∈ creatSyncSlaveLink vars, protoIsModbus slave.devType.toNat slave.protoType.toNat = true ∧
    (poll.btOpCode = 3 ∨ poll.btOpCode = 4) ∧
    (∃ faAddr, slave.param = .modbus poll.btOpCode poll.btSlaveAddr faAddr) ∧
    ∃ ext, .modbus ext ∈ slave.extList ∧ poll.usDevType = slave.devType.toNat ∧
      poll.usDevNum = slave.devNum.toNat ∧ poll.addr = ext.addr.toNat ∧ poll.size = ext.size.toNat

/-- A variable that a request is about. -/
def PolledFor (poll : Poll) (data : ExtData) : Prop :=
  masterSelects poll.usDevType poll.usDevNum poll.btSlaveAddr poll.addr poll.size data = true ∧
    data.xIo.param.modbus.btOpCode = poll.btOpCode

/-- Delivers the response to a request, as `modbus_read_registers_with` does after a successful read. -/
def deliverPoll (env : RefreshEnv) (vars : List ExtData) (poll : Poll) (response : ℕ → UInt8)
    (s : RefreshState) :
    RefreshState :=
  refreshExtDataWithModbusMaster env vars s poll.usDevType poll.usDevNum poll.btSlaveAddr
    poll.addr poll.size
    response

/-- A response to a poll of the plan changes the stored values of polled variables only. -/
def ResponseIsolated (vars : List ExtData) : Prop :=
  ∀ poll, IsPoll vars poll → ∀ env s response i data, vars[i]? = some data →
    (deliverPoll env vars poll response s).values i ≠ s.values i → PolledFor poll data

/-- For every variable that a delivery selects, the first variable that covers its internal address is
one that was polled. -/
def ResponseSafe (vars : List ExtData) : Prop :=
  ∀ poll, IsPoll vars poll → ∀ data ∈ vars,
    masterSelects poll.usDevType poll.usDevNum poll.btSlaveAddr poll.addr poll.size data = true →
    ∀ other i, coveringNode vars data.xIo.usAddr.toNat = some (other, i) → PolledFor poll other

/-- The covering node stands at its position in the list. -/
theorem coveringNode_getElem? {vars : List ExtData} {usAddress : ℕ} {data : ExtData} {i : ℕ}
    (h : coveringNode vars usAddress = some (data, i)) : vars[i]? = some data := by
  have hmem := List.mem_of_find?_eq_some h
  exact List.mem_zipIdx_iff_getElem?.mp hmem

/-- A refresh changes no value but that of the node that covers the address. -/
theorem masterRefresh_values {env : RefreshEnv} {vars : List ExtData} {s : RefreshState}
    {usAddress i : ℕ}
    (h : ∀ data, coveringNode vars usAddress ≠ some (data, i)) :
    (masterRefreshExtDataWithRegs env vars s usAddress).values i = s.values i := by
  rw [masterRefreshExtDataWithRegs]
  cases hnode : coveringNode vars usAddress with
  | none => rfl
  | some x =>
    obtain ⟨data, j⟩ := x
    have hne : i ≠ j := by
      rintro rfl
      exact h data hnode
    exact Function.update_of_ne hne _ _

/-- Under the condition a response stays with the variables that were polled. -/
theorem deliverPoll_values {env : RefreshEnv} {vars : List ExtData} {poll : Poll} {response : ℕ → UInt8}
    {i : ℕ} (h : ∀ data ∈ vars,
      masterSelects poll.usDevType poll.usDevNum poll.btSlaveAddr poll.addr poll.size data = true →
      ∀ other, coveringNode vars data.xIo.usAddr.toNat ≠ some (other, i)) (s : RefreshState) :
    (deliverPoll env vars poll response s).values i = s.values i := by
  have hfold : ∀ nodes : List ExtData, nodes ⊆ vars → ∀ s : RefreshState,
      (nodes.foldl (masterDeliver env vars poll.usDevType poll.usDevNum poll.btSlaveAddr
      poll.addr poll.size
        response) s).values i = s.values i := by
    intro nodes
    induction nodes with
    | nil => exact fun _ _ => rfl
    | cons data nodes ih =>
      intro hsub s
      rw [List.foldl_cons, ih (fun _ hmem => hsub (List.mem_cons_of_mem _ hmem)), masterDeliver]
      split
      · next hselect => rw [masterRefresh_values (h data (hsub List.mem_cons_self) hselect)]; rfl
      · rfl
  exact hfold vars (fun _ h => h) s

/-- Two states that differ at most in the stored value at one position. -/
def AgreeOff (i : ℕ) (s t : RefreshState) : Prop := s.regs = t.regs ∧ ∀ j, j ≠ i →
    s.values j = t.values j

/-- The value that a refresh without expression results stores, from the registers alone. -/
def quietValue (ops : DoubleOps) (data : ExtData) (regs : ℕ → UInt8) (usAddress : ℕ) : VarValue :=
  tryRefreshAiValue ops data (doSetOutValue ops data data.xIo.btInVarType
    (vBigEdianExtData data.xIo.btInVarType data.xIo.btInVarRuleType (readUnion regs usAddress) 0))

/-- A refresh without expression results, written out. -/
theorem masterRefresh_quiet {ops : DoubleOps} {vars : List ExtData} {usAddress : ℕ}
    {data : ExtData} {i : ℕ}
    (hnode : coveringNode vars usAddress = some (data, i)) (s : RefreshState) :
    masterRefreshExtDataWithRegs (quietEnv ops) vars s usAddress =
      { values := Function.update s.values i (quietValue ops data s.regs usAddress)
        regs := writeUnion s.regs usAddress (vBigEdianExtData data.xIo.btOutVarType data.xIo.btOutVarRuleType
          (quietValue ops data s.regs usAddress) (readUnion s.regs usAddress)) } := by
  rw [masterRefreshExtDataWithRegs, hnode]
  simp only [refreshNode, refreshedValue_quiet]
  rfl

/-- A refresh without expression results does not depend on the stored value that it replaces. -/
theorem masterRefresh_agreeOff (ops : DoubleOps) (vars : List ExtData) {s t : RefreshState} {i : ℕ}
    (usAddress : ℕ)
    (h : AgreeOff i s t) :
    AgreeOff i (masterRefreshExtDataWithRegs (quietEnv ops) vars s usAddress)
        (masterRefreshExtDataWithRegs (quietEnv ops) vars t usAddress) ∧
      ∀ data, coveringNode vars usAddress = some (data, i) →
        (masterRefreshExtDataWithRegs (quietEnv ops) vars s usAddress).values i =
          (masterRefreshExtDataWithRegs (quietEnv ops) vars t usAddress).values i := by
  obtain ⟨hregs, hvalues⟩ := h
  cases hnode : coveringNode vars usAddress with
  | none =>
    simp only [masterRefreshExtDataWithRegs, hnode]
    exact ⟨⟨hregs, hvalues⟩, by simp⟩
  | some x =>
    obtain ⟨data, j⟩ := x
    simp only [masterRefresh_quiet hnode, hregs]
    refine ⟨⟨rfl, ?_⟩, ?_⟩
    · intro k hk
      change Function.update s.values j _ k = Function.update t.values j _ k
      by_cases hkj : k = j
      · rw [hkj, Function.update_self, Function.update_self]
      · rw [Function.update_of_ne hkj, Function.update_of_ne hkj, hvalues k hk]
    · rintro _ ⟨⟩
      rw [Function.update_self, Function.update_self]

/-- States with the same registers and values are the same. -/
theorem AgreeOff.eq {i : ℕ} {s t : RefreshState} (h : AgreeOff i s t)
    (hi : s.values i = t.values i) : s = t := by
  obtain ⟨values, regs⟩ := s
  obtain ⟨values', regs'⟩ := t
  obtain ⟨rfl, hvalues⟩ := h
  congr
  funext j
  by_cases hj : j = i
  · rw [hj]
    exact hi
  · exact hvalues j hj

/-- One node of a delivery without expression results keeps the agreement of two states. -/
theorem masterDeliver_agreeOff (ops : DoubleOps) (vars : List ExtData) {s t : RefreshState} {i : ℕ}
    (poll : Poll)
    (response : ℕ → UInt8) (data : ExtData) (h : AgreeOff i s t) :
    let deliver :=
      masterDeliver (quietEnv ops) vars poll.usDevType poll.usDevNum poll.btSlaveAddr poll.addr
      poll.size response
    AgreeOff i (deliver s data) (deliver t data) ∧
      (masterSelects poll.usDevType poll.usDevNum poll.btSlaveAddr poll.addr poll.size data = true →
        ∀ other, coveringNode vars data.xIo.usAddr.toNat = some (other, i) →
          deliver s data = deliver t data) := by
  intro deliver
  simp only [deliver, masterDeliver]
  split
  · have hstaged : AgreeOff i
        (refreshRegs s (fun k => response (2 * (data.xIo.param.modbus.usExtAddr.toNat - poll.addr) + k))
          data.xIo.usAddr.toNat (typeRegs data.xIo.btInVarType))
        (refreshRegs t (fun k => response (2 * (data.xIo.param.modbus.usExtAddr.toNat - poll.addr) + k))
          data.xIo.usAddr.toNat (typeRegs data.xIo.btInVarType)) := by
      refine ⟨?_, h.2⟩
      simp only [refreshRegs, h.1]
    obtain ⟨hagree, hvalue⟩ := masterRefresh_agreeOff ops vars data.xIo.usAddr.toNat hstaged
    exact ⟨hagree, fun _ other hnode => hagree.eq (hvalue other hnode)⟩
  · next hselect => exact ⟨h, fun hselect' => absurd hselect' hselect⟩

/-- A delivery without expression results that refreshes the node at `i` forgets its old value. -/
theorem deliverPoll_forgets (ops : DoubleOps) {vars : List ExtData} {s t : RefreshState} {i : ℕ}
    {poll : Poll}
    (response : ℕ → UInt8) {data other : ExtData} (h : AgreeOff i s t) (hdata : data ∈ vars)
    (hselect : masterSelects poll.usDevType poll.usDevNum poll.btSlaveAddr poll.addr poll.size
      data = true)
    (hnode : coveringNode vars data.xIo.usAddr.toNat = some (other, i)) :
    deliverPoll (quietEnv ops) vars poll response s =
      deliverPoll (quietEnv ops) vars poll response t := by
  have hfold : ∀ nodes : List ExtData, data ∈ nodes → ∀ s t : RefreshState, AgreeOff i s t →
      nodes.foldl (masterDeliver (quietEnv ops) vars poll.usDevType poll.usDevNum
      poll.btSlaveAddr poll.addr
        poll.size response) s =
      nodes.foldl (masterDeliver (quietEnv ops) vars poll.usDevType poll.usDevNum
      poll.btSlaveAddr poll.addr
        poll.size response) t := by
    intro nodes
    induction nodes with
    | nil => simp
    | cons first nodes ih =>
      intro hmem s t hagree
      obtain ⟨hnext, hequal⟩ := masterDeliver_agreeOff ops vars poll response first hagree
      rw [List.foldl_cons, List.foldl_cons]
      rcases List.mem_cons.mp hmem with rfl | hmem
      · rw [hequal hselect other hnode]
      · exact ih hmem _ _ hnext
  exact hfold vars hdata s t h

/-- A response stays with the variables that were polled exactly when both selections meet. -/
theorem deliverPoll_isolated_iff (vars : List ExtData) : ResponseIsolated vars ↔ ResponseSafe vars := by
  constructor
  · intro h poll hpoll data hdata hselect other i hnode
    by_contra hnot
    let ops : DoubleOps :=
      ⟨fun _ => 0, fun _ => 0, fun _ => 0, fun _ _ => 0, fun _ => true, fun _ _ => true,
      fun _ _ => true, fun _ _ => 0⟩
    let start (v : VarValue) : RefreshState := ⟨Function.update (fun _ => 0) i v, fun _ => 0⟩
    -- runs that start with different values at `i` end with the same one, so one of them changes it
    have hkept : ∀ v, (deliverPoll (quietEnv ops) vars poll (fun _ => 0) (start v)).values i = v := by
      intro v
      have hchanged :=
        h poll hpoll (quietEnv ops) (start v) (fun _ => 0) i other (coveringNode_getElem? hnode)
      simp only [start, Function.update_self] at hchanged
      exact not_not.mp fun hne => hnot (hchanged hne)
    have hagree : AgreeOff i (start 0) (start 1) :=
      ⟨rfl, fun j hj => by simp only [start, Function.update_of_ne hj]⟩
    have hsame := deliverPoll_forgets ops (fun _ => 0) hagree hdata hselect hnode
    have hzero : (0 : VarValue) = 1 := by rw [← hkept 0, hsame, hkept 1]
    exact absurd (congrFun hzero 0) (by decide)
  · intro h poll hpoll env s response i data hi hchanged
    by_contra hnot
    refine hchanged (deliverPoll_values ?_ s)
    intro selected hselected hselect other hnode
    have hother := h poll hpoll selected hselected hselect other i hnode
    rw [coveringNode_getElem? hnode] at hi
    cases hi
    exact hnot hother

/-- The response to a read of holding registers changes an input register variable of the same
address. -/
theorem deliverPoll_crosses_op : ¬ ∀ vars, ResponseIsolated vars := by
  intro h
  let holding : ExtData := { xIo := { usAddr := 1024, param := { modbus := { btOpCode := 3 } } } }
  let input : ExtData := { xIo := { usAddr := 1025, param := { modbus := { btOpCode := 4 } } } }
  let ops : DoubleOps :=
    ⟨fun _ => 0, fun _ => 0, fun _ => 0, fun _ _ => 0, fun _ => true, fun _ _ => true,
    fun _ _ => true, fun _ _ => 0⟩
  have hpoll : IsPoll [holding, input] ⟨0, 0, 3, 0, 0, 1⟩ :=
    ⟨⟨0, 0, 0, .modbus 3 0 0, [.modbus ⟨0, 0, 1⟩]⟩, by decide, by decide, by decide, ⟨0, rfl⟩,
      ⟨0, 0, 1⟩, by decide⟩
  have hpolled :=
    h [holding, input] _ hpoll (quietEnv ops) ⟨fun _ => 0, fun _ => 0⟩ (fun _ => 1) 1 input rfl
  refine absurd (hpolled ?_).2 (by decide)
  intro hsame
  exact absurd (congrFun hsame 0) (by decide)

end DasEdge.VarManage
