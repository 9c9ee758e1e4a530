import DasEdge.VarManage.MasterDelivery
import DasEdge.VarManage.SlaveForward

/-!
# The bounds of the register area

`g_xExtDataRegs` points into `g_modbus_regs` and has 9216 registers behind it, one less than the
addresses that `EXT_DATA_REG_CHECK` and `MB_IN_USER_REG` accept and than `g_xExtDataRegsFlag` has
entries. The helpers that take a variable's address do not look at where its registers end, and the
types without a byte order read and write the four registers of a union. So the accesses of an
operation are collected, and an operation stays inside the arrays exactly when the last register
that its types reach is there.
-/

namespace DasEdge.VarManage

/-- `USER_REG_EXT_DATA_START` -/
def userRegExtDataStart : ℕ := 1024

/-- `USER_REG_EXT_DATA_END` -/
def userRegExtDataEnd : ℕ := 10240

/-- `USER_REG_EXT_DATA_SIZE` -/
def userRegExtDataSize : ℕ := userRegExtDataEnd - userRegExtDataStart + 1

/-- `_MODBUS_REGS_COUNT` -/
def modbusRegsCount : ℕ := userRegExtDataEnd

/-- `EXT_DATA_REG_CHECK` -/
def extDataRegCheck (usAddr : ℕ) : Bool := userRegExtDataStart ≤ usAddr && usAddr ≤ userRegExtDataEnd

/-- The areas that `__modbus_holding_callback` tells apart. -/
inductive UserReg where
  | ai | di | do | netCfg | extData
  deriving DecidableEq

/-- `USER_REG_*_START` -/
def UserReg.start : UserReg → ℕ
  | .ai => 50
  | .di => 70
  | .do => 80
  | .netCfg => 100
  | .extData => userRegExtDataStart

/-- `USER_REG_*_END` -/
def UserReg.stop : UserReg → ℕ
  | .ai => 65
  | .di => 77
  | .do => 87
  | .netCfg => 133
  | .extData => userRegExtDataEnd

/-- `USER_REG_*_SIZE` -/
def UserReg.size (reg : UserReg) : ℕ := reg.stop - reg.start + 1

/-- `MB_IN_USER_REG` -/
def mbInUserReg (reg : UserReg) (usAddress usNRegs : ℕ) : Bool :=
  reg.start ≤ usAddress && usAddress ≤ reg.stop && usAddress + usNRegs ≤ reg.start + reg.size

/-- The area that `__modbus_holding_callback` takes a request to be in. -/
def userRegOf (usAddress usNRegs : ℕ) : Option UserReg :=
  [UserReg.ai, .di, .do, .netCfg, .extData].find? fun reg => mbInUserReg reg usAddress usNRegs

/-- The two arrays of the register area. -/
inductive RegArray where
  | xExtDataRegs | xExtDataRegsFlag
  deriving DecidableEq

/-- The number of entries from the one on that the array's name points to. -/
def RegArray.size : RegArray → ℕ
  | .xExtDataRegs => modbusRegsCount - userRegExtDataStart
  | .xExtDataRegsFlag => userRegExtDataSize

/-- A read or a write of an array's entry. -/
structure RegAccess where
  array : RegArray
  index : ℤ
  deriving DecidableEq

/-- The index of an access is one of its array. -/
def RegAccess.InBounds (access : RegAccess) : Prop :=
  0 ≤ access.index ∧ access.index < access.array.size

/-- The registers from an address on. -/
def regsAt (usAddress nregs : ℕ) : List RegAccess :=
  (List.range nregs).map fun i : ℕ => ⟨.xExtDataRegs, (usAddress : ℤ) - userRegExtDataStart + i⟩

/-- The flag of an address. -/
def flagAt (usAddress : ℕ) : RegAccess := ⟨.xExtDataRegsFlag, (usAddress : ℤ) - userRegExtDataStart⟩

/-- The registers that `vBigEdianExtData` reads or writes through a `VarValue_v *` for a type. -/
def unionRegs (type : EVarType) : ℕ := edianSize type / 2

/-- `__RefreshRegsFlag` -/
def refreshRegsFlagAccesses (vars : List ExtData) : List RegAccess :=
  vars.flatMap fun data =>
    if data.bEnable then
      (((List.range (typeRegs data.xIo.btOutVarType)).map fun i => data.xIo.usAddr.toNat + i).filter
        extDataRegCheck).map flagAt
    else []

/-- `bVarManage_CheckContAddr`: the result and the accesses. -/
def checkContAddr (flags : ℤ → Bool) : (usNRegs : ℕ) → (usAddr : UInt16) → Bool × List RegAccess
  | 0, _ => (true, [])
  | usNRegs + 1, usAddr =>
    if extDataRegCheck usAddr.toNat then
      let access := flagAt usAddr.toNat
      if flags access.index then
        let rest := checkContAddr flags usNRegs (usAddr + 1)
        (rest.1, access :: rest.2)
      else (false, [access])
    else (false, [])

/-- `__SlaveRefreshExtDataWithRegs` -/
def slaveRefreshAccesses (vars : List ExtData) (usAddress : ℕ) : List RegAccess :=
  match coveringNode vars usAddress with
  | none => []
  | some (data, _) =>
    regsAt usAddress (unionRegs data.xIo.btOutVarType) ++ regsAt usAddress
      (unionRegs data.xIo.btOutVarType)

/-- `__MasterRefreshExtDataWithRegs` -/
def masterRefreshAccesses (vars : List ExtData) (usAddress : ℕ) : List RegAccess :=
  match coveringNode vars usAddress with
  | none => []
  | some (data, _) =>
    regsAt usAddress (unionRegs data.xIo.btInVarType) ++ regsAt usAddress
      (unionRegs data.xIo.btOutVarType)

/-- `bVarManage_RefreshExtDataWithModbusSlave`: the registers that it sends on and those of the
refreshes. -/
def slaveWriteAccesses (env : ForwardEnv) (vars : List ExtData) (usNRegs : ℕ) (usAddress : UInt16) :
    List RegAccess :=
  ((slaveForwards env vars usNRegs usAddress).flatMap fun call => regsAt call.usAddress call.usNRegs) ++
    (slaveVisits vars usNRegs usAddress.toNat).flatMap (slaveRefreshAccesses vars)

/-- `__modbus_holding_callback`. The other areas have arrays of their own. -/
def modbusHoldingCallbackAccesses (env : ForwardEnv) (vars : List ExtData) (flags : ℤ → Bool)
    (usAddress usNRegs : UInt16) (readFlag : Bool) : List RegAccess :=
  match userRegOf usAddress.toNat usNRegs.toNat with
  | some .extData =>
    let check := checkContAddr flags usNRegs.toNat usAddress
    if check.1 then
      check.2 ++ regsAt usAddress.toNat usNRegs.toNat ++
        if readFlag then [] else slaveWriteAccesses env vars usNRegs.toNat usAddress
    else check.2
  | _ => []

/-- What is done with the register area: a request of a Modbus master; the flags made anew; the
value of a variable delivered, with the number of registers that the delivery is limited to; a
variable cleared; some of its registers read; and the refresh of an intermediate variable. -/
inductive RegOp where
  | holding (usAddress usNRegs : UInt16) (readFlag : Bool)
  | refreshFlags
  | deliver (data : ExtData) (limit : ℕ)
  | clear (data : ExtData)
  | read (data : ExtData) (nregs : ℕ)
  | selfMid (data : ExtData)

/-- The accesses of an operation. -/
def RegOp.accesses (env : ForwardEnv) (vars : List ExtData) (flags : ℤ → Bool) : RegOp → List RegAccess
  | .holding usAddress usNRegs readFlag =>
    modbusHoldingCallbackAccesses env vars flags usAddress usNRegs readFlag
  | .refreshFlags => refreshRegsFlagAccesses vars
  | .deliver data limit =>
    regsAt data.xIo.usAddr.toNat (min (typeRegs data.xIo.btInVarType) limit) ++
      masterRefreshAccesses vars data.xIo.usAddr.toNat
  | .clear data => regsAt data.xIo.usAddr.toNat (typeRegs data.xIo.btOutVarType)
  | .read data nregs => regsAt data.xIo.usAddr.toNat nregs
  | .selfMid data => slaveRefreshAccesses vars data.xIo.usAddr.toNat

/-- The variable of an operation is one that `prvCheckExeDataEnable` admits. -/
def RegOp.Admitted : RegOp → Prop
  | .holding _ _ _ | .refreshFlags => True
  | .deliver data _ | .clear data | .read data _ | .selfMid data => prvCheckExeDataEnable data = true

/-- For a type of the variable that is found at an address, the registers from there end with the
area. -/
def UnionFits (vars : List ExtData) (type : ExtData → EVarType) (usAddress : ℕ) : Prop :=
  ∀ data i, coveringNode vars usAddress = some (data, i) →
    usAddress + unionRegs (type data) ≤ modbusRegsCount

/-- The registers that the types and counts of an operation reach end with the area. -/
def RegOp.Fits (vars : List ExtData) (flags : ℤ → Bool) : RegOp → Prop
  | .holding usAddress usNRegs readFlag =>
    userRegOf usAddress.toNat usNRegs.toNat = some .extData →
      (checkContAddr flags usNRegs.toNat usAddress).1 = true → usNRegs ≠ 0 →
        usAddress.toNat + usNRegs.toNat ≤ modbusRegsCount ∧
          (readFlag = false → ∀ a ∈ slaveVisits vars usNRegs.toNat usAddress.toNat,
            UnionFits vars (·.xIo.btOutVarType) a)
  | .refreshFlags => True
  | .deliver data limit =>
    data.xIo.usAddr.toNat + min (typeRegs data.xIo.btInVarType) limit ≤ modbusRegsCount ∧
      UnionFits vars (·.xIo.btInVarType) data.xIo.usAddr.toNat ∧
      UnionFits vars (·.xIo.btOutVarType) data.xIo.usAddr.toNat
  | .clear data => data.xIo.usAddr.toNat + typeRegs data.xIo.btOutVarType ≤ modbusRegsCount
  | .read data nregs => data.xIo.usAddr.toNat + nregs ≤ modbusRegsCount
  | .selfMid data => UnionFits vars (·.xIo.btOutVarType) data.xIo.usAddr.toNat

/-- The access to the register that a byte of the area is in. -/
def byteAccess (b : ℕ) : RegAccess := ⟨.xExtDataRegs, ((b / 2 : ℕ) : ℤ) - userRegExtDataStart⟩

/-- The registers from an address on, by their bytes. -/
theorem byteAccess_mem_regsAt {b usAddress nregs : ℕ} :
    byteAccess b ∈ regsAt usAddress nregs ↔ 2 * usAddress ≤ b ∧ b < 2 * usAddress + 2 * nregs := by
  unfold byteAccess regsAt
  simp only [List.mem_map, List.mem_range, RegAccess.mk.injEq, true_and]
  constructor
  · rintro ⟨i, hi, hindex⟩
    omega
  · intro hb
    exact ⟨b / 2 - usAddress, by omega, by omega⟩

/-- Taking registers from a buffer changes only registers that it accesses. -/
theorem refreshRegs_accessed (s : RefreshState) (regbuf : ℕ → UInt8) {usAddr nregs b : ℕ}
    (h : byteAccess b ∉ regsAt usAddr nregs) :
    (refreshRegs s regbuf usAddr nregs).regs b = s.regs b := by
  rw [byteAccess_mem_regsAt] at h
  exact if_neg h

/-- A refresh changes only registers of the union of the output type. -/
theorem refreshNode_accessed (env : RefreshEnv) (type : EVarType) (rule : UInt8)
    (convert : VarValue → VarValue)
    (usAddress : ℕ) (s : RefreshState) (data : ExtData) (i : ℕ) {b : ℕ}
    (h : byteAccess b ∉ regsAt usAddress (unionRegs data.xIo.btOutVarType)) :
    (refreshNode env type rule convert usAddress s data i).regs b = s.regs b := by
  have heven : 2 * unionRegs data.xIo.btOutVarType = edianSize data.xIo.btOutVarType := by
    cases data.xIo.btOutVarType <;> rfl
  rw [byteAccess_mem_regsAt, heven] at h
  simp only [refreshNode]
  by_cases hin : 2 * usAddress ≤ b ∧ b < 2 * usAddress + 8
  · obtain ⟨k, rfl⟩ : ∃ k, b = 2 * usAddress + k := ⟨b - 2 * usAddress, by omega⟩
    rw [writeUnion_inside k (by omega), vBigEdianExtData_ge (by simp only; omega)]
    rfl
  · exact writeUnion_outside (by omega)

/-- What a refresh stores depends on the registers of the union of the type that it reads. -/
theorem refreshNode_congr (env : RefreshEnv) (type : EVarType) (rule : UInt8)
    (convert : VarValue → VarValue)
    {usAddress : ℕ} {s t : RefreshState} (data : ExtData) (i : ℕ) (hvalues : s.values = t.values)
    (hstack : env.stack s usAddress = env.stack t usAddress)
    (hregs : ∀ b, byteAccess b ∈ regsAt usAddress (unionRegs type) → s.regs b = t.regs b) :
    (refreshNode env type rule convert usAddress s data i).values =
      (refreshNode env type rule convert usAddress t data i).values := by
  have heven : 2 * unionRegs type = edianSize type := by cases type <;> rfl
  have hraw : vBigEdianExtData type rule (readUnion s.regs usAddress) (env.stack s usAddress) =
      vBigEdianExtData type rule (readUnion t.regs usAddress) (env.stack t usAddress) := by
    funext k
    by_cases hk : k.val < edianSize type
    · have hsource := (edianSource_spec type rule k hk).1
      rw [vBigEdianExtData_lt hk, vBigEdianExtData_lt hk]
      apply hregs
      have hmod := Nat.mod_le (edianSource type rule k) 8
      rw [byteAccess_mem_regsAt, heven, Fin.val_ofNat]
      omega
    · rw [vBigEdianExtData_ge (by omega), vBigEdianExtData_ge (by omega), hstack]
  simp only [refreshNode, hraw, hvalues, refreshedValue]

/-- The refresh from written registers changes only registers that it accesses. -/
theorem slaveRefresh_accessed (env : RefreshEnv) {vars : List ExtData} (s : RefreshState)
    {usAddress b : ℕ}
    (h : byteAccess b ∉ slaveRefreshAccesses vars usAddress) :
    (slaveRefreshExtDataWithRegs env vars s usAddress).regs b = s.regs b := by
  unfold slaveRefreshAccesses at h
  unfold slaveRefreshExtDataWithRegs
  cases hnode : coveringNode vars usAddress with
  | none => rfl
  | some x =>
    rw [hnode] at h
    exact refreshNode_accessed _ _ _ _ _ _ _ _ fun hmem => h (List.mem_append_right _ hmem)

/-- The refresh from a response changes only registers that it accesses. -/
theorem masterRefresh_accessed (env : RefreshEnv) {vars : List ExtData} (s : RefreshState)
    {usAddress b : ℕ}
    (h : byteAccess b ∉ masterRefreshAccesses vars usAddress) :
    (masterRefreshExtDataWithRegs env vars s usAddress).regs b = s.regs b := by
  unfold masterRefreshAccesses at h
  unfold masterRefreshExtDataWithRegs
  cases hnode : coveringNode vars usAddress with
  | none => rfl
  | some x =>
    rw [hnode] at h
    exact refreshNode_accessed _ _ _ _ _ _ _ _ fun hmem => h (List.mem_append_right _ hmem)

/-- The delivery of a Modbus response to a variable changes only registers that it accesses. -/
theorem masterDeliver_accessed (env : RefreshEnv) (forwardEnv : ForwardEnv) {vars : List ExtData}
    (flags : ℤ → Bool) (poll : Poll) (response : ℕ → UInt8) (s : RefreshState) {data : ExtData} {b : ℕ}
    (h : byteAccess b ∉ (RegOp.deliver data 4).accesses forwardEnv vars flags) :
    (masterDeliver env vars poll.usDevType poll.usDevNum poll.btSlaveAddr poll.addr poll.size response s
      data).regs b = s.regs b := by
  rw [RegOp.accesses, min_eq_left (typeRegs_le _), List.mem_append, not_or] at h
  unfold masterDeliver
  split
  · exact (masterRefresh_accessed env _ h.2).trans (refreshRegs_accessed s _ h.1)
  · rfl

/-- A slave write changes only registers that it accesses. -/
theorem slaveWrite_accessed (env : RefreshEnv) (forwardEnv : ForwardEnv) {vars : List ExtData}
    {usNRegs : ℕ}
    {usAddress : UInt16} (s : RefreshState) {b : ℕ}
    (haccepted : SlaveWriteAccepted usAddress.toNat usNRegs)
    (h : byteAccess b ∉ slaveWriteAccesses forwardEnv vars usNRegs usAddress) :
    (refreshExtDataWithModbusSlave env vars usNRegs usAddress s).regs b = s.regs b := by
  unfold slaveWriteAccesses at h
  rw [List.mem_append, not_or] at h
  rw [refreshExtDataWithModbusSlave_eq env vars usNRegs usAddress s (.inr haccepted.2)]
  refine List.foldlRecOn (motive := fun t : RefreshState => t.regs b = s.regs b) _ _ rfl ?_
  intro t ht a ha
  exact (slaveRefresh_accessed env t fun hmem => h.2 (List.mem_flatMap.mpr ⟨a, ha, hmem⟩)).trans ht

/-- The registers from an address on are inside when the last one is. -/
theorem regsAt_inBounds_iff {usAddress nregs : ℕ} (h : userRegExtDataStart ≤ usAddress) :
    (∀ access ∈ regsAt usAddress nregs, access.InBounds) ↔
      (nregs ≠ 0 → usAddress + nregs ≤ modbusRegsCount) := by
  have hsize : RegArray.xExtDataRegs.size = 9216 := rfl
  have hcount : modbusRegsCount = 10240 := rfl
  have hstart : userRegExtDataStart = 1024 := rfl
  unfold regsAt RegAccess.InBounds
  simp only [List.forall_mem_map, List.mem_range, hsize, hcount, hstart] at h ⊢
  constructor
  · intro hinside hregs
    have hlast := (hinside (nregs - 1) (by omega)).2
    omega
  · intro hend i hi
    have hlast := hend (by omega)
    omega

/-- The flag of an address that passes the check is inside. -/
theorem flagAt_inBounds {usAddress : ℕ} (h : extDataRegCheck usAddress = true) :
    (flagAt usAddress).InBounds := by
  have hsize : RegArray.xExtDataRegsFlag.size = 9217 := rfl
  have hend : userRegExtDataEnd = 10240 := rfl
  have hstart : userRegExtDataStart = 1024 := rfl
  unfold extDataRegCheck at h
  unfold flagAt RegAccess.InBounds
  simp only [Bool.and_eq_true, decide_eq_true_eq, hsize, hend, hstart] at h ⊢
  omega

/-- The flags that are set are inside. -/
theorem refreshRegsFlag_inBounds (vars : List ExtData) :
    ∀ access ∈ refreshRegsFlagAccesses vars, access.InBounds := by
  intro access haccess
  unfold refreshRegsFlagAccesses at haccess
  obtain ⟨data, -, haccess⟩ := List.mem_flatMap.mp haccess
  split at haccess
  · obtain ⟨usAddress, hchecked, rfl⟩ := List.mem_map.mp haccess
    exact flagAt_inBounds (List.mem_filter.mp hchecked).2
  · cases haccess

/-- The flags that are looked at for a request are inside. -/
theorem checkContAddr_inBounds (flags : ℤ → Bool) (usNRegs : ℕ) (usAddr : UInt16) :
    ∀ access ∈ (checkContAddr flags usNRegs usAddr).2, access.InBounds := by
  induction usNRegs generalizing usAddr with
  | zero => simp [checkContAddr]
  | succ usNRegs ih =>
    rw [checkContAddr]
    split
    · next hcheck =>
      have hfirst := flagAt_inBounds hcheck
      simp only
      split
      · exact List.forall_mem_cons.mpr ⟨hfirst, ih (usAddr + 1)⟩
      · exact List.forall_mem_singleton.mpr hfirst
    · simp

/-- Every type takes some of the registers of a union. -/
theorem unionRegs_pos (type : EVarType) : unionRegs type ≠ 0 := by
  cases type <;> decide

/-- The accesses of a refresh from written registers. -/
theorem slaveRefresh_inBounds_iff {vars : List ExtData} {usAddress : ℕ}
    (h : userRegExtDataStart ≤ usAddress) :
    (∀ access ∈ slaveRefreshAccesses vars usAddress, access.InBounds) ↔
      UnionFits vars (·.xIo.btOutVarType) usAddress := by
  unfold slaveRefreshAccesses UnionFits
  cases coveringNode vars usAddress with
  | none => simp
  | some x =>
    simp only [List.forall_mem_append, regsAt_inBounds_iff h, unionRegs_pos, and_self, ne_eq,
      not_false_eq_true,
      true_implies, Option.some.injEq]
    constructor
    · rintro hend data i rfl
      exact hend
    · intro hend
      exact hend x.1 x.2 rfl

/-- The accesses of a refresh from a response. -/
theorem masterRefresh_inBounds_iff {vars : List ExtData} {usAddress : ℕ}
    (h : userRegExtDataStart ≤ usAddress) :
    (∀ access ∈ masterRefreshAccesses vars usAddress, access.InBounds) ↔
      UnionFits vars (·.xIo.btInVarType) usAddress ∧ UnionFits vars (·.xIo.btOutVarType) usAddress := by
  unfold masterRefreshAccesses UnionFits
  cases coveringNode vars usAddress with
  | none => simp
  | some x =>
    simp only [List.forall_mem_append, regsAt_inBounds_iff h, unionRegs_pos, ne_eq, not_false_eq_true,
      true_implies, Option.some.injEq]
    constructor
    · rintro ⟨hin, hout⟩
      constructor
      · rintro data i rfl
        exact hin
      · rintro data i rfl
        exact hout
    · rintro ⟨hin, hout⟩
      exact ⟨hin x.1 x.2 rfl, hout x.1 x.2 rfl⟩

/-- The accesses of a slave write that ends with the area. -/
theorem slaveWrite_inBounds_iff {env : ForwardEnv} {vars : List ExtData} {usNRegs : ℕ}
    {usAddress : UInt16}
    (hstart : userRegExtDataStart ≤ usAddress.toNat)
    (hend : usAddress.toNat + usNRegs ≤ modbusRegsCount) :
    (∀ access ∈ slaveWriteAccesses env vars usNRegs usAddress, access.InBounds) ↔
      ∀ a ∈ slaveVisits vars usNRegs usAddress.toNat, UnionFits vars (·.xIo.btOutVarType) a := by
  have hcount : modbusRegsCount = 10240 := rfl
  have hvisits := (slaveVisits_ascend vars usNRegs usAddress.toNat).1
  have hsent : ∀ access ∈ (slaveForwards env vars usNRegs usAddress).flatMap
      (fun call => regsAt call.usAddress call.usNRegs), access.InBounds := by
    intro access haccess
    obtain ⟨call, hcall, haccess⟩ := List.mem_flatMap.mp haccess
    rw [slaveForwards_eq env vars usNRegs usAddress (.inr (by omega))] at hcall
    obtain ⟨a, ha, hcall⟩ := List.mem_filterMap.mp hcall
    obtain ⟨-, -, -, haddr, hregs, -⟩ := forwardAt_some hcall
    obtain ⟨hge, hlt, -⟩ := hvisits a ha
    rw [haddr, hregs] at haccess
    exact (regsAt_inBounds_iff (hstart.trans hge)).mpr (fun _ => by omega) access haccess
  unfold slaveWriteAccesses
  rw [List.forall_mem_append]
  constructor
  · rintro ⟨-, hrefreshes⟩ a ha
    rw [← slaveRefresh_inBounds_iff (hstart.trans (hvisits a ha).1)]
    intro access haccess
    exact hrefreshes access (List.mem_flatMap.mpr ⟨a, ha, haccess⟩)
  · intro hfits
    refine ⟨hsent, fun access haccess => ?_⟩
    obtain ⟨a, ha, haccess⟩ := List.mem_flatMap.mp haccess
    exact (slaveRefresh_inBounds_iff (hstart.trans (hvisits a ha).1)).mpr (hfits a ha) access haccess

/-- A write of no registers has no accesses. -/
theorem slaveWriteAccesses_zero (env : ForwardEnv) (vars : List ExtData) (usAddress : UInt16) :
    slaveWriteAccesses env vars 0 usAddress = [] := by
  rw [slaveWriteAccesses, slaveForwards, slaveVisits]
  rfl

/-- The address of an admitted variable passes the check. -/
theorem admitted_usAddr {data : ExtData} (h : prvCheckExeDataEnable data = true) :
    userRegExtDataStart ≤ data.xIo.usAddr.toNat ∧ data.xIo.usAddr.toNat ≤ modbusRegsCount := by
  unfold prvCheckExeDataEnable at h
  simp only [Bool.and_eq_true, decide_eq_true_eq] at h
  exact ⟨UInt16.le_iff_toNat_le.mp h.1.1.2, UInt16.le_iff_toNat_le.mp h.1.2⟩

/-- An admitted variable is enabled and its output type takes registers. -/
theorem admitted_enabled {data : ExtData} (h : prvCheckExeDataEnable data = true) :
    data.bEnable = true ∧ 0 < typeRegs data.xIo.btOutVarType := by
  unfold prvCheckExeDataEnable at h
  simp only [Bool.and_eq_true, decide_eq_true_eq] at h
  refine ⟨h.1.1.1.1.1, ?_⟩
  have htype := h.1.1.1.2
  cases hout : data.xIo.btOutVarType <;> first | decide | exact absurd hout htype

/-- At an address that passes the check no registers end with the area. -/
theorem imp_end_iff {usAddress nregs : ℕ} (h : usAddress ≤ modbusRegsCount) :
    (nregs ≠ 0 → usAddress + nregs ≤ modbusRegsCount) ↔ usAddress + nregs ≤ modbusRegsCount := by
  constructor
  · intro hend
    by_cases hregs : nregs = 0
    · rwa [hregs]
    · exact hend hregs
  · exact fun hend _ => hend

/-- A request that is taken to be in the register area passes the test of its addresses. -/
theorem userRegOf_extData {usAddress usNRegs : ℕ} (h : userRegOf usAddress usNRegs = some .extData) :
    mbInUserReg .extData usAddress usNRegs = true :=
  List.find?_some (p := fun reg => mbInUserReg reg usAddress usNRegs) h

/-- The accesses of a request of a Modbus master. -/
theorem holding_inBounds_iff (env : ForwardEnv) (vars : List ExtData) (flags : ℤ → Bool)
    (usAddress usNRegs : UInt16) (readFlag : Bool) :
    (∀ access ∈ modbusHoldingCallbackAccesses env vars flags usAddress usNRegs readFlag,
      access.InBounds) ↔
      (RegOp.holding usAddress usNRegs readFlag).Fits vars flags := by
  have hflags := checkContAddr_inBounds flags usNRegs.toNat usAddress
  unfold modbusHoldingCallbackAccesses RegOp.Fits
  split
  · next harea =>
    have hrequest := userRegOf_extData harea
    have hstart : userRegExtDataStart ≤ usAddress.toNat := by
      unfold mbInUserReg at hrequest
      simp only [Bool.and_eq_true, decide_eq_true_eq] at hrequest
      exact hrequest.1.1
    have hzero : usNRegs ≠ 0 ↔ usNRegs.toNat ≠ 0 := not_congr UInt16.toNat_inj.symm
    simp only [harea, true_implies]
    split
    · next hcont =>
      simp only [hcont, true_implies, List.forall_mem_append, hzero]
      rw [regsAt_inBounds_iff hstart]
      by_cases hregs : usNRegs.toNat = 0
      · rw [hregs] at hflags ⊢
        rw [slaveWriteAccesses_zero]
        simpa using hflags
      · simp only [ne_eq, hregs, not_false_eq_true, true_implies]
        constructor
        · rintro ⟨⟨-, hend⟩, hwrite⟩
          refine ⟨hend, fun hread => ?_⟩
          rw [hread] at hwrite
          exact (slaveWrite_inBounds_iff hstart hend).mp hwrite
        · rintro ⟨hend, hvisits⟩
          refine ⟨⟨hflags, hend⟩, ?_⟩
          cases readFlag with
          | true => simp
          | false => exact (slaveWrite_inBounds_iff hstart hend).mpr (hvisits rfl)
    · next hcont => simpa [hcont] using hflags
  · next harea =>
    constructor
    · intro _ hextData
      exact (harea hextData).elim
    · simp

/-- An operation stays inside the arrays exactly when the registers that its types and counts reach
end with the area. -/
theorem regOp_inBounds_iff (env : ForwardEnv) (vars : List ExtData) (flags : ℤ → Bool) (op : RegOp)
    (hadmitted : op.Admitted) :
    (∀ access ∈ op.accesses env vars flags, access.InBounds) ↔ op.Fits vars flags := by
  cases op with
  | holding usAddress usNRegs readFlag =>
    exact holding_inBounds_iff env vars flags usAddress usNRegs readFlag
  | refreshFlags => exact iff_of_true (refreshRegsFlag_inBounds vars) trivial
  | deliver data limit =>
    obtain ⟨hstart, hend⟩ := admitted_usAddr hadmitted
    unfold RegOp.accesses RegOp.Fits
    rw [List.forall_mem_append, regsAt_inBounds_iff hstart, masterRefresh_inBounds_iff hstart,
      imp_end_iff hend]
  | clear data =>
    obtain ⟨hstart, hend⟩ := admitted_usAddr hadmitted
    exact (regsAt_inBounds_iff hstart).trans (imp_end_iff hend)
  | read data nregs =>
    obtain ⟨hstart, hend⟩ := admitted_usAddr hadmitted
    exact (regsAt_inBounds_iff hstart).trans (imp_end_iff hend)
  | selfMid data => exact slaveRefresh_inBounds_iff (admitted_usAddr hadmitted).1

/-- If every enabled variable keeps three registers behind it, and requests end with the area, no
operation that delivers, clears or refreshes a variable of the list or serves a request leaves the
arrays. -/
theorem regOp_fits_of_margin {vars : List ExtData} (flags : ℤ → Bool) (op : RegOp)
    (hmargin : ∀ data ∈ vars, data.bEnable = true →
      data.xIo.usAddr.toNat + typeRegs data.xIo.btOutVarType + 3 ≤ modbusRegsCount)
    (hop : match op with
      | .holding usAddress usNRegs _ => usAddress.toNat + usNRegs.toNat ≤ modbusRegsCount
      | .refreshFlags => True
      | .deliver data _ | .clear data | .selfMid data => data ∈ vars ∧ prvCheckExeDataEnable data = true
      | .read data nregs => data.xIo.usAddr.toNat + nregs ≤ modbusRegsCount) : op.Fits vars flags := by
  have hunion : ∀ type : ExtData → EVarType, ∀ a, UnionFits vars type a := by
    intro type a data i hnode
    obtain ⟨henabled, hle, hlt⟩ := coveringNode_covers hnode
    have hdata := hmargin data (List.mem_of_getElem? (coveringNode_getElem? hnode)) henabled
    have hfour : unionRegs (type data) ≤ 4 := by cases type data <;> decide
    omega
  cases op with
  | holding usAddress usNRegs readFlag => exact fun _ _ _ => ⟨hop, fun _ a _ => hunion _ a⟩
  | refreshFlags => trivial
  | deliver data limit =>
    have hdata := hmargin data hop.1 (admitted_enabled hop.2).1
    have hout := (admitted_enabled hop.2).2
    have hfour := typeRegs_le data.xIo.btInVarType
    exact ⟨by omega, hunion _ _, hunion _ _⟩
  | clear data =>
    have hdata := hmargin data hop.1 (admitted_enabled hop.2).1
    exact (Nat.le_add_right _ 3).trans hdata
  | read data nregs => exact hop
  | selfMid data => exact hunion _ _

/-- A 16-bit variable in the last register, filled from a response. -/
theorem regOp_inBounds_iff_last :
    (∀ access ∈ (RegOp.deliver { xIo := { usAddr := 10239 } } 4).accesses ⟨fun _ => false,
      fun _ => false⟩
        [{ xIo := { usAddr := 10239 } }] (fun _ => true), access.InBounds) ↔
      (RegOp.deliver { xIo := { usAddr := 10239 } } 4).Fits [{ xIo := { usAddr := 10239 } }]
      (fun _ => true) :=
  regOp_inBounds_iff _ _ _ (.deliver { xIo := { usAddr := 10239 } } 4) rfl

/-- A 16-bit variable at `USER_REG_EXT_DATA_END` is admitted, but its register is behind the array. -/
theorem regOp_outside : ¬ ∀ (env : ForwardEnv) (vars : List ExtData) (flags : ℤ → Bool) (op : RegOp),
    op.Admitted → ∀ access ∈ op.accesses env vars flags, access.InBounds := by
  intro h
  have hinside := h ⟨fun _ => false, fun _ => false⟩ [{ xIo := { usAddr := 10240 } }] (fun _ => true)
    (.deliver { xIo := { usAddr := 10240 } } 4) rfl ⟨.xExtDataRegs, 9216⟩ (by decide)
  exact absurd hinside.2 (by decide)

end DasEdge.VarManage
