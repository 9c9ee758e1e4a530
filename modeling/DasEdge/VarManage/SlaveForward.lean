import DasEdge.VarManage.SlaveVisits

/-!
# Forwarding a slave write to the devices

`bVarManage_RefreshExtDataWithModbusSlave` sends the written registers of each variable on to its
device. The number of registers that it sends is what is left of the whole write, not what is left of
the variable, so a write that goes on behind a variable also writes the device's next registers.
-/

namespace DasEdge.VarManage

/-- `BOARD_ZGB_UART` -/
def boardZgbUart : ℤ := 3

/-- `BOARD_LORA_UART` -/
def boardLoraUart : ℤ := 4

/-- `BOARD_ENET_TCPIP_NUM` -/
def boardEnetTcpipNum : ℕ := 12

/-- `MODBUS_FC_READ_HOLDING_REGISTERS` -/
def modbusFcReadHoldingRegisters : UInt8 := 3

/-- Whether a radio module runs and accepts the slave of the variable at a position as destination. -/
structure ForwardEnv where
  zgbSetDstNode : ℕ → Bool
  loraSetDstNode : ℕ → Bool

/-- The port `_p`, an 8-bit number, that a variable is reached on. -/
def forwardPort (env : ForwardEnv) (i : ℕ) (data : ExtData) : ℤ :=
  let usDevType := data.xIo.usDevType.toNat
  let usDevNum := data.xIo.usDevNum.toNat
  if usDevType ≤ 1 then usDevType
  else if usDevType = 3 then if env.zgbSetDstNode i then boardZgbUart else -1
  else if usDevType = 5 then if env.loraSetDstNode i then boardLoraUart else -1
  else if usDevType = 2 then Int.bmod usDevNum 256
  else if usDevType = 4 then Int.bmod (usDevNum + boardEnetTcpipNum) 256
  else -1

/-- The condition under which the write is sent on. -/
def forwardable (env : ForwardEnv) (i : ℕ) (data : ExtData) : Bool :=
  0 ≤ forwardPort env i data && data.xIo.param.modbus.btOpCode = modbusFcReadHoldingRegisters

/-- A call of `modbus_write_registers_with`: the position of the variable that it is issued for, the
address of the registers that it sends, and its arguments. -/
structure Forward where
  node : ℕ
  usAddress : ℕ
  usDevType : ℕ
  port : ℤ
  btSlaveAddr : UInt8
  usExtAddr : UInt16
  usNRegs : ℕ

/-- The call that is issued for a variable that is found at an address. -/
def forwardCall (env : ForwardEnv) (usAddress usNRegs : ℕ) (data : ExtData) (i : ℕ) : Option Forward :=
  if forwardable env i data then
    some ⟨i, usAddress, data.xIo.usDevType.toNat, forwardPort env i data,
      data.xIo.param.modbus.btSlaveAddr,
      data.xIo.param.modbus.usExtAddr + (usAddress - data.xIo.usAddr.toNat).toUInt16, usNRegs⟩
  else none

/-- The calls that `bVarManage_RefreshExtDataWithModbusSlave` issues. -/
def slaveForwards (env : ForwardEnv) (vars : List ExtData) (usNRegs : ℕ) (usAddress : UInt16) :
    List Forward :=
  if usNRegs = 0 then []
  else
    match coveringNode vars usAddress.toNat with
    | some (data, i) =>
      let nregs := typeRegs data.xIo.btOutVarType - (usAddress.toNat - data.xIo.usAddr.toNat)
      if 0 < nregs then
        (forwardCall env usAddress.toNat usNRegs data i).toList ++
          slaveForwards env vars (usNRegs - nregs) (usAddress + nregs.toUInt16)
      else slaveForwards env vars (usNRegs - 1) (usAddress + 1)
    | none => slaveForwards env vars (usNRegs - 1) (usAddress + 1)
  termination_by usNRegs

/-- The call that is issued at a visited address of a write that ends before `stop`. -/
def forwardAt (env : ForwardEnv) (vars : List ExtData) (stop usAddress : ℕ) : Option Forward :=
  (coveringNode vars usAddress).bind fun x => forwardCall env usAddress (stop - usAddress) x.1 x.2

/-- The calls are those at the visited addresses, one after the other. -/
theorem slaveForwards_eq (env : ForwardEnv) (vars : List ExtData) (usNRegs : ℕ) (usAddress : UInt16)
    (h : usNRegs = 0 ∨ usAddress.toNat + usNRegs ≤ 10241) :
    slaveForwards env vars usNRegs usAddress =
      (slaveVisits vars usNRegs usAddress.toNat).filterMap
      (forwardAt env vars (usAddress.toNat + usNRegs)) := by
  induction usNRegs using Nat.strong_induction_on generalizing usAddress with
  | _ usNRegs ih =>
    rw [slaveForwards, slaveVisits]
    by_cases hzero : usNRegs = 0
    · rw [if_pos hzero, if_pos hzero]
      rfl
    rw [if_neg hzero, if_neg hzero]
    have hbound : usAddress.toNat + usNRegs ≤ 10241 := h.resolve_left hzero
    have hstep : ∀ n, n ≤ 4 → (usAddress + n.toUInt16).toNat = usAddress.toNat + n :=
      fun n hn => (addRegs_toNat hn).trans (Nat.mod_eq_of_lt (by omega))
    have hskip : slaveForwards env vars (usNRegs - 1) (usAddress + 1) =
        (slaveVisits vars (usNRegs - 1) (usAddress.toNat + 1)).filterMap
          (forwardAt env vars (usAddress.toNat + usNRegs)) := by
      have hone : (usAddress + 1).toNat = usAddress.toNat + 1 := hstep 1 (by decide)
      have hstop : usAddress.toNat + 1 + (usNRegs - 1) = usAddress.toNat + usNRegs := by omega
      rw [ih (usNRegs - 1) (by omega) (usAddress + 1) (by omega), hone, hstop]
    cases hnode : coveringNode vars usAddress.toNat with
    | none => exact hskip
    | some x =>
      obtain ⟨data, i⟩ := x
      have hle := typeRegs_le data.xIo.btOutVarType
      simp only
      split
      · obtain ⟨nregs, hnregs⟩ : ∃ nregs, nregs = typeRegs data.xIo.btOutVarType -
            (usAddress.toNat - data.xIo.usAddr.toNat) := ⟨_, rfl⟩
        have hcall : forwardAt env vars (usAddress.toNat + usNRegs) usAddress.toNat =
            forwardCall env usAddress.toNat usNRegs data i := by
          rw [forwardAt, hnode, Nat.add_sub_cancel_left]
          rfl
        have hrest : slaveForwards env vars (usNRegs - nregs) (usAddress + nregs.toUInt16) =
            (slaveVisits vars (usNRegs - nregs) (usAddress.toNat + nregs)).filterMap
              (forwardAt env vars (usAddress.toNat + usNRegs)) := by
          rw [ih _ (by omega) _ (by rw [hstep _ (by omega)]; omega), hstep _ (by omega)]
          by_cases hend : usNRegs ≤ nregs
          · rw [show usNRegs - nregs = 0 by omega, slaveVisits, if_pos rfl]
            rfl
          · rw [show usAddress.toNat + nregs + (usNRegs - nregs) = usAddress.toNat + usNRegs by omega]
        rw [List.filterMap_cons, hcall, ← hnregs, hrest]
        cases forwardCall env usAddress.toNat usNRegs data i with
        | none => rfl
        | some call => rfl
      · exact hskip

/-- Visited addresses are in the written range and ascend from variable to variable, whatever the output
ranges are. -/
theorem slaveVisits_ascend (vars : List ExtData) (usNRegs usAddress : ℕ) :
    (∀ a ∈ slaveVisits vars usNRegs usAddress, usAddress ≤ a ∧ a < usAddress + usNRegs ∧
      ∃ data i, coveringNode vars a = some (data, i)) ∧
    (slaveVisits vars usNRegs usAddress).Pairwise
    (fun a b => ∀ data i, coveringNode vars a = some (data, i) →
      data.xIo.usAddr.toNat + typeRegs data.xIo.btOutVarType ≤ b) := by
  induction usNRegs using Nat.strong_induction_on generalizing usAddress with
  | _ usNRegs ih =>
    by_cases hzero : usNRegs = 0
    · rw [slaveVisits, if_pos hzero]
      exact ⟨by simp, List.Pairwise.nil⟩
    cases hnode : coveringNode vars usAddress with
    | none =>
      rw [slaveVisits_gap hzero hnode]
      obtain ⟨hvisits, hordered⟩ := ih (usNRegs - 1) (by omega) (usAddress + 1)
      refine ⟨fun a ha => ?_, hordered⟩
      obtain ⟨hle, hlt, hfound⟩ := hvisits a ha
      exact ⟨by omega, by omega, hfound⟩
    | some x =>
      obtain ⟨data, i⟩ := x
      obtain ⟨-, hle, hlt⟩ := coveringNode_covers hnode
      rw [slaveVisits_covered hzero hnode]
      obtain ⟨hvisits, hordered⟩ := ih (usAddress + usNRegs - (data.xIo.usAddr.toNat +
        typeRegs data.xIo.btOutVarType)) (by omega) (data.xIo.usAddr.toNat +
        typeRegs data.xIo.btOutVarType)
      refine ⟨fun a ha => ?_, List.pairwise_cons.mpr ⟨fun b hb other j hother => ?_, hordered⟩⟩
      · rcases List.mem_cons.mp ha with rfl | ha
        · exact ⟨le_rfl, by omega, data, i, hnode⟩
        · obtain ⟨hge, hlt', hfound⟩ := hvisits a ha
          exact ⟨by omega, by omega, hfound⟩
      · rw [hnode] at hother
        cases hother
        exact (hvisits b hb).1

/-- A variable is visited at no two addresses. -/
theorem slaveVisits_unique {vars : List ExtData} {usNRegs usAddress a b i : ℕ} {data : ExtData}
    (ha : a ∈ slaveVisits vars usNRegs usAddress) (hb : b ∈ slaveVisits vars usNRegs usAddress)
    (hnodeA : coveringNode vars a = some (data, i))
    (hnodeB : coveringNode vars b = some (data, i)) : a = b := by
  have hordered := List.pairwise_iff_getElem.mp (slaveVisits_ascend vars usNRegs usAddress).2
  obtain ⟨-, -, hendA⟩ := coveringNode_covers hnodeA
  obtain ⟨-, -, hendB⟩ := coveringNode_covers hnodeB
  obtain ⟨p, hp, rfl⟩ := List.getElem_of_mem ha
  obtain ⟨q, hq, rfl⟩ := List.getElem_of_mem hb
  rcases Nat.lt_trichotomy p q with hlt | rfl | hlt
  · have := hordered p q hp hq hlt data i hnodeA
    omega
  · rfl
  · have := hordered q p hq hp hlt data i hnodeB
    omega

/-- No address is visited twice. -/
theorem slaveVisits_nodup (vars : List ExtData) (usNRegs usAddress : ℕ) :
    (slaveVisits vars usNRegs usAddress).Nodup := by
  obtain ⟨hvisits, hordered⟩ := slaveVisits_ascend vars usNRegs usAddress
  apply hordered.imp_of_mem
  rintro a b ha - hend rfl
  obtain ⟨-, -, data, i, hnode⟩ := hvisits a ha
  have := hend data i hnode
  have := (coveringNode_covers hnode).2.2
  omega

/-- Each call of a slave write sends registers of the variable that it is issued for, to registers
that the variable has in its device, and no more than are left of the write; and every written
register of a variable that is reached on some port is sent once. -/
def ForwardsOk (env : ForwardEnv) (vars : List ExtData) (usNRegs : ℕ) (usAddress : UInt16) : Prop :=
  (∀ call ∈ slaveForwards env vars usNRegs usAddress, ∀ data, vars[call.node]? = some data →
    data.xIo.param.modbus.usExtAddr ≤ call.usExtAddr ∧
    call.usExtAddr.toNat + call.usNRegs ≤
      data.xIo.param.modbus.usExtAddr.toNat + typeRegs data.xIo.btOutVarType ∧
    call.usAddress + call.usNRegs ≤ usAddress.toNat + usNRegs) ∧
  ∀ i data, vars[i]? = some data → forwardable env i data = true →
    ∀ r, usAddress.toNat ≤ r → r < usAddress.toNat + usNRegs → coversOut r data = true →
      (slaveForwards env vars usNRegs usAddress).countP (fun call =>
        call.node = i && call.usAddress ≤ r && r < call.usAddress + call.usNRegs) = 1

/-- The first of a variable's registers that a write from `usAddress` on reaches. -/
def firstWritten (usAddress : ℕ) (data : ExtData) : ℕ := max data.xIo.usAddr.toNat usAddress

/-- A write that reaches a variable with a port ends in this variable, the loop comes to the first
of its registers that is written and finds the variable there, and the register's address in the
device does not wrap around. -/
def ForwardsSafe (env : ForwardEnv) (vars : List ExtData) (usNRegs : ℕ) (usAddress : UInt16) : Prop :=
  ∀ i data, vars[i]? = some data → forwardable env i data = true →
    (∃ r, usAddress.toNat ≤ r ∧ r < usAddress.toNat + usNRegs ∧ coversOut r data = true) →
    usAddress.toNat + usNRegs ≤ data.xIo.usAddr.toNat + typeRegs data.xIo.btOutVarType ∧
    firstWritten usAddress.toNat data ∈ slaveVisits vars usNRegs usAddress.toNat ∧
    coveringNode vars (firstWritten usAddress.toNat data) = some (data, i) ∧
    data.xIo.param.modbus.usExtAddr.toNat +
    (firstWritten usAddress.toNat data - data.xIo.usAddr.toNat) < 65536

/-- What is issued at an address where a variable is found. -/
theorem forwardAt_some {env : ForwardEnv} {vars : List ExtData} {stop a : ℕ} {call : Forward}
    (h : forwardAt env vars stop a = some call) :
    ∃ data, coveringNode vars a = some (data, call.node) ∧ forwardable env call.node data = true ∧
      call.usAddress = a ∧ call.usNRegs = stop - a ∧
      call.usExtAddr = data.xIo.param.modbus.usExtAddr + (a - data.xIo.usAddr.toNat).toUInt16 := by
  rw [forwardAt] at h
  cases hnode : coveringNode vars a with
  | none =>
    rw [hnode] at h
    cases h
  | some x =>
    obtain ⟨data, i⟩ := x
    rw [hnode, Option.bind_some, forwardCall] at h
    split at h
    · next hforwardable =>
      cases h
      exact ⟨data, rfl, hforwardable, rfl, rfl, rfl⟩
    · cases h

/-- Under the condition a visited variable with a port is visited at the first of its registers that is
written. -/
theorem ForwardsSafe.visited {env : ForwardEnv} {vars : List ExtData} {usNRegs : ℕ} {usAddress : UInt16}
    (h : ForwardsSafe env vars usNRegs usAddress) {a i : ℕ} {data : ExtData}
    (ha : a ∈ slaveVisits vars usNRegs usAddress.toNat) (hnode : coveringNode vars a = some (data, i))
    (hforwardable : forwardable env i data = true) :
    a = firstWritten usAddress.toNat data ∧
      usAddress.toNat + usNRegs ≤ data.xIo.usAddr.toNat + typeRegs data.xIo.btOutVarType ∧
      data.xIo.param.modbus.usExtAddr.toNat + (a - data.xIo.usAddr.toNat) < 65536 := by
  obtain ⟨hle, hlt, -⟩ := (slaveVisits_ascend vars usNRegs usAddress.toNat).1 a ha
  obtain ⟨hend, hfirst, hfound, hwrap⟩ := h i data (coveringNode_getElem? hnode) hforwardable
    ⟨a, hle, hlt, List.find?_some (p := fun x : ExtData × ℕ => coversOut a x.1) hnode⟩
  have hsame := slaveVisits_unique ha hfirst hnode hfound
  exact ⟨hsame, hend, by rw [hsame]; exact hwrap⟩

/-- Under the condition the calls are as they should be. -/
theorem forwardsOk_of_safe {env : ForwardEnv} {vars : List ExtData} {usNRegs : ℕ} {usAddress : UInt16}
    (haccepted : SlaveWriteAccepted usAddress.toNat usNRegs)
    (h : ForwardsSafe env vars usNRegs usAddress) :
    ForwardsOk env vars usNRegs usAddress := by
  rw [ForwardsOk, slaveForwards_eq env vars usNRegs usAddress (.inr haccepted.2)]
  obtain ⟨hvisits, -⟩ := slaveVisits_ascend vars usNRegs usAddress.toNat
  constructor
  · intro call hcall data hdata
    obtain ⟨a, ha, hcall⟩ := List.mem_filterMap.mp hcall
    obtain ⟨data', hnode, hforwardable, haddr, hregs, hext⟩ := forwardAt_some hcall
    rw [coveringNode_getElem? hnode] at hdata
    cases hdata
    obtain ⟨-, hend, hwrap⟩ := h.visited ha hnode hforwardable
    obtain ⟨-, hle, hlt⟩ := coveringNode_covers hnode
    obtain ⟨hge, hlt', -⟩ := hvisits a ha
    have hfour := typeRegs_le data.xIo.btOutVarType
    have hextNat :=
      addRegs_toNat (x := data.xIo.param.modbus.usExtAddr)
      (n := a - data.xIo.usAddr.toNat) (by omega)
    rw [Nat.mod_eq_of_lt hwrap] at hextNat
    rw [hext, haddr, hregs]
    refine ⟨UInt16.le_iff_toNat_le.mpr ?_, ?_, ?_⟩
    · omega
    · omega
    · omega
  · intro i data hdata hforwardable r hle hlt hcovers
    obtain ⟨hend, hfirst, hfound, -⟩ := h i data hdata hforwardable ⟨r, hle, hlt, hcovers⟩
    have hstart : data.xIo.usAddr.toNat ≤ r := by
      simp only [coversOut, Bool.and_eq_true, decide_eq_true_eq] at hcovers
      exact hcovers.1.2
    rw [List.countP_filterMap,
      ← List.count_eq_one_of_mem (slaveVisits_nodup vars usNRegs usAddress.toNat) hfirst]
    apply List.countP_congr
    intro a ha
    rw [beq_iff_eq]
    constructor
    · intro hcall
      cases hat : forwardAt env vars (usAddress.toNat + usNRegs) a with
      | none =>
        rw [hat] at hcall
        cases hcall
      | some call =>
        rw [hat, Option.map_some, Option.getD_some, Bool.and_eq_true, Bool.and_eq_true,
          decide_eq_true_eq] at hcall
        obtain ⟨data', hnode, hforwardable', -⟩ := forwardAt_some hat
        rw [hcall.1.1] at hnode hforwardable'
        have hsame := coveringNode_getElem? hnode
        rw [hdata] at hsame
        cases hsame
        exact (h.visited ha hnode hforwardable').1
    · rintro rfl
      rw [forwardAt, hfound, Option.bind_some, forwardCall, if_pos hforwardable]
      simp only [Option.map_some, Option.getD_some, decide_true, Bool.true_and, Bool.and_eq_true,
        decide_eq_true_eq]
      rw [firstWritten]
      omega

/-- Calls that are as they should be meet the condition. -/
theorem forwardsSafe_of_ok {env : ForwardEnv} {vars : List ExtData} {usNRegs : ℕ} {usAddress : UInt16}
    (haccepted : SlaveWriteAccepted usAddress.toNat usNRegs)
    (h : ForwardsOk env vars usNRegs usAddress) :
    ForwardsSafe env vars usNRegs usAddress := by
  rw [ForwardsOk, slaveForwards_eq env vars usNRegs usAddress (.inr haccepted.2)] at h
  obtain ⟨hinside, hsent⟩ := h
  rintro i data hdata hforwardable ⟨r, hle, hlt, hcovers⟩
  obtain ⟨⟨henabled, hstart⟩, hstop⟩ : (data.bEnable = true ∧ data.xIo.usAddr.toNat ≤ r) ∧
      r < data.xIo.usAddr.toNat + typeRegs data.xIo.btOutVarType := by simpa [coversOut] using hcovers
  have hfirstCovers : coversOut (firstWritten usAddress.toNat data) data = true := by
    unfold coversOut firstWritten
    simp only [henabled, Bool.true_and, Bool.and_eq_true, decide_eq_true_eq]
    omega
  have hone :=
    hsent i data hdata hforwardable (firstWritten usAddress.toNat data)
    (by rw [firstWritten]; omega)
    (by rw [firstWritten]; omega) hfirstCovers
  obtain ⟨call, hcall, hmatches⟩ := List.countP_pos_iff.mp (by rw [hone]; decide)
  simp only [Bool.and_eq_true, decide_eq_true_eq] at hmatches
  obtain ⟨a, ha, hat⟩ := List.mem_filterMap.mp hcall
  obtain ⟨data', hnode, -, haddr, hregs, hext⟩ := forwardAt_some hat
  have hvars := coveringNode_getElem? hnode
  rw [hmatches.1.1, hdata] at hvars
  cases hvars
  obtain ⟨-, hleA, hltA⟩ := coveringNode_covers hnode
  obtain ⟨hgeA, -, -⟩ := (slaveVisits_ascend vars usNRegs usAddress.toNat).1 a ha
  have hfirst : a = firstWritten usAddress.toNat data := by
    rw [firstWritten] at hmatches ⊢
    omega
  obtain ⟨hlower, hupper, -⟩ := hinside call hcall data (coveringNode_getElem? hnode)
  have hfour := typeRegs_le data.xIo.btOutVarType
  have hextNat :=
    addRegs_toNat (x := data.xIo.param.modbus.usExtAddr) (n := a - data.xIo.usAddr.toNat) (by omega)
  have hlowerNat := UInt16.le_iff_toNat_le.mp hlower
  rw [hext] at hlowerNat hupper
  have hxlt := data.xIo.param.modbus.usExtAddr.toNat_lt
  rw [hmatches.1.1, hfirst] at hnode
  rw [hfirst] at ha hextNat hlowerNat hupper
  have hwrap : data.xIo.param.modbus.usExtAddr.toNat +
      (firstWritten usAddress.toNat data - data.xIo.usAddr.toNat) < 65536 := by omega
  refine ⟨?_, ha, hnode, hwrap⟩
  rw [hextNat, Nat.mod_eq_of_lt hwrap, hregs, hfirst] at hupper
  omega

/-- The calls of an accepted write are as they should be exactly when a write that reaches a
variable with a port ends in this variable and the loop finds it where the write first meets it. -/
theorem slaveForwards_ok_iff (env : ForwardEnv) (vars : List ExtData) (usNRegs : ℕ) (usAddress : UInt16)
    (haccepted : SlaveWriteAccepted usAddress.toNat usNRegs) :
    ForwardsOk env vars usNRegs usAddress ↔ ForwardsSafe env vars usNRegs usAddress :=
  ⟨forwardsSafe_of_ok haccepted, forwardsOk_of_safe haccepted⟩

/-- A write of one register of a 32-bit variable, whose second register is not written. -/
theorem slaveForwards_ok_iff_half :
    ForwardsOk ⟨fun _ => false, fun _ => false⟩
      [{ xIo := { usAddr := 1024, btOutVarType := .int32 } }] 1 1024 ↔
      ForwardsSafe ⟨fun _ => false, fun _ => false⟩
        [{ xIo := { usAddr := 1024, btOutVarType := .int32 } }] 1 1024 :=
  slaveForwards_ok_iff _ _ 1 1024 (by constructor <;> decide)

/-- A write of two variables sends two registers to the device of the first, which has one. -/
theorem slaveForwards_overrun :
    ¬ ∀ (env : ForwardEnv) (vars : List ExtData) (usNRegs : ℕ) (usAddress : UInt16),
      (∀ data ∈ vars, data.bEnable = true) → SlaveWriteAccepted usAddress.toNat usNRegs →
        ForwardsOk env vars usNRegs usAddress := by
  intro h
  have haccepted : SlaveWriteAccepted (UInt16.toNat 1024) 2 := by constructor <;> decide
  have hok := h ⟨fun _ => false, fun _ => false⟩
    [{ xIo := { usAddr := 1024 } }, { xIo := { usAddr := 1025, usDevType := 1 } }] 2 1024
      (by simp) haccepted
  have hend := (forwardsSafe_of_ok haccepted hok 0 { xIo := { usAddr := 1024 } } rfl (by decide)
    ⟨1024, by decide, by decide, by decide⟩).1
  exact absurd hend (by decide)

end DasEdge.VarManage
