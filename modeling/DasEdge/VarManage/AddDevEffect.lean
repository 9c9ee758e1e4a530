import DasEdge.VarManage.AddDevWhole
import DasEdge.VarManage.ExtDataRoundTrip

/-!
# What a device that is accepted becomes

A register that is accepted becomes one variable with its name, its group, its place in the device
and its types. Its byte orders are checked and dropped, its alias and its expression are only read,
so a variable is what its register says if and only if those are not given or are what a variable
has anyway.
-/

namespace DasEdge.VarManage

open DasEdge.Library

/-- The input type of a register. -/
def regInType (reg : CJson) : EVarType :=
  ((given (reg.getString "in_type")).map varmanageTypeFromString).getD .error

/-- Its output type, which is the input type unless it is given. -/
def regOutType (reg : CJson) : EVarType :=
  ((given (reg.getString "out_type")).map varmanageTypeFromString).getD (regInType reg)

/-- The code of a byte order that is given. -/
def endianCode (type : EVarType) (endian : Option String) : Option ℕ :=
  (given endian).bind (varmanageEndianFromString type)

/-- The byte order of a register at its input. -/
def regInEndian (reg : CJson) : ℕ := (endianCode (regInType reg) (reg.getString "in_endian")).getD 0

/-- The byte order at its output, which is that at the input unless it is given. -/
def regOutEndian (reg : CJson) : ℕ :=
  (endianCode (regOutType reg) (reg.getString "out_endian")).getD (regInEndian reg)

/-- A variable is what a register of a device says. -/
structure SaysReg (group : String) (slave : Int32) (reg : CJson) (info : ExtDataInfo) : Prop where
  name : info.szName = regName reg
  group : info.szGroup = group
  op : (paramUInt8 info.xIo.param 0).toNat = (reg.getInt "op" 3).toInt
  slave : (paramUInt8 info.xIo.param 8).toNat = slave.toInt
  addr : (paramUInt16 info.xIo.param 10).toNat = (reg.getInt "reg_addr" (-1)).toInt
  inType : eVarTypeOf info.xIo.btInVarType = regInType reg
  outType : eVarTypeOf info.xIo.btOutVarType = regOutType reg
  inEndian : info.xIo.btInVarRuleType.toNat = regInEndian reg
  outEndian : info.xIo.btOutVarRuleType.toNat = regOutEndian reg
  aliasText : info.szAlias = (given (reg.getString "alias")).getD ""
  exp : info.xIo.expType = 0 ∧ info.xIo.exp.name = given (reg.getString "exp")

/-- Each register of a request that is accepted has exactly one variable of its name afterwards, and
that is what the register says. -/
def TakesEffect (env : CJsonEnv) (sql : SqlName) (fuel : ℕ) (st : VarStores) (obj : CJson)
    (devType devNum proto : Int32)
    (rooms : List StoreRoom) : Prop :=
  let made := groupMade fuel st (.dev obj devType devNum proto) rooms
  made.1 = 0 → ∃ st', createGroup env sql fuel st made rooms = some st' ∧
    ∀ group, obj.getString "group" = some group → ∀ reg ∈ regsOf obj, ∃ info,
      (liveInfos fuel st').filter (fun other => other.szName = regName reg) = [info] ∧
        SaysReg group (obj.getInt "slave" (-1)) reg info

/-- A register with the byte orders that a variable has anyway, without an alias and without an
expression. -/
structure PlainReg (reg : CJson) : Prop where
  inEndian : regInEndian reg = 0
  outEndian : regOutEndian reg = 0
  aliasText : given (reg.getString "alias") = none
  exp : given (reg.getString "exp") = none

/-- The addresses that registers get, from the highest address in the list and the size of its
variable on. -/
def nextAddrs : UInt16 × ℕ → List CJson → List UInt16
  | _, [] => []
  | (maxAddr, sz), reg :: regs =>
    let addr := maxAddr + UInt16.ofNat ((sz + 1) / 2)
    addr :: nextAddrs (if addr > maxAddr then (addr, gVarTypeSz (regOutType reg))
      else (maxAddr, sz)) regs

/-- The sort leaves new variables in the list: their addresses get higher and higher, or it can sort
the list. -/
def KeepsNews (fuel : ℕ) (st : VarStores) (news : List UInt16) : Prop :=
  let olds := (liveInfos fuel st).map (·.xIo.usAddr)
  (news.Pairwise (· < ·) ∧ ∀ new ∈ news, ∀ old ∈ olds, old < new) ∨ (∃ nodes, VarsListed st nodes) ∧
    SortsFrom [] [] (olds ++ news)

/-- The request is refused, or none of its registers has anything that a variable does not keep. -/
def PlainRequest (room : ℕ) (vars : List ExtDataCfg) (obj : CJson)
    (devType devNum proto : Int32) : Prop :=
  (AddCall.json obj devType devNum proto).Refused vars ∨ ¬ RegsPass room (regsOf obj) ∨
    ∀ reg ∈ regsOf obj, PlainReg reg

/-- The types of a register that passes, and the ranges of its numbers. -/
theorem regTypes_eq {reg : CJson} {types : EVarType × EVarType} (h : regTypes reg = some types) :
    types = (regInType reg, regOutType reg) ∧
      (0 ≤ reg.getInt "reg_addr" (-1) ∧ reg.getInt "reg_addr" (-1) ≤ 0xFFFF) ∧
      (reg.getInt "op" 3 = 3 ∨ reg.getInt "op" 3 = 4) := by
  simp only [regTypes, Option.bind_eq_bind, Option.bind_eq_some_iff, guard] at h
  obtain ⟨_, haddr, _, hop, inText, hin, _, -, _, -, _, -, _, -, htypes⟩ := h
  have hinType : regInType reg = varmanageTypeFromString inText := by
    rw [regInType, hin]
    rfl
  refine ⟨?_, ?_, ?_⟩
  · rw [← Option.some.inj htypes, regOutType, hinType]
  · by_contra hnot
    rw [if_neg hnot] at haddr
    cases haddr
  · by_contra hnot
    rw [if_neg hnot] at hop
    cases hop

/-- An integer that is not negative, as a word. -/
theorem toInt_eq_toNat {x : Int32} (hlow : 0 ≤ x.toInt) : x.toInt = x.toUInt32.toNat := by
  have hcond : x.toInt = if 2 * x.toUInt32.toNat < 2 ^ 32 then (x.toUInt32.toNat : ℤ)
      else x.toUInt32.toNat - (2 ^ 32 : ℕ) :=
    BitVec.toInt_eq_toNat_cond x.toBitVec
  have hlt := x.toUInt32.toNat_lt
  split at hcond
  · exact hcond
  · omega

/-- A small integer is kept in one byte. -/
theorem toNat_toUInt8 {x : Int32} (hlow : 0 ≤ x.toInt) (hhigh : x.toInt ≤ 255) :
    (x.toUInt32.toUInt8.toNat : ℤ) = x.toInt := by
  have hnat := toInt_eq_toNat hlow
  rw [UInt32.toNat_toUInt8, Nat.mod_eq_of_lt (by omega), hnat]

/-- A larger one is kept in two bytes. -/
theorem toNat_toUInt16 {x : Int32} (hlow : 0 ≤ x.toInt) (hhigh : x.toInt ≤ 65535) :
    (x.toUInt32.toUInt16.toNat : ℤ) = x.toInt := by
  have hnat := toInt_eq_toNat hlow
  rw [UInt32.toNat_toUInt16, Nat.mod_eq_of_lt (by omega), hnat]

/-- The type of a variable reads back from its code. -/
theorem eVarTypeOf_typeCode (type : EVarType) : eVarTypeOf (typeCode type) = type := by
  cases type <;> rfl

section Created

variable (group : String) (slave devType devNum proto : Int32)

/-- The parameters of a created variable. -/
theorem createdInfo_param (data : ExtDataCfg) :
    paramUInt8 (createdInfo data).xIo.param 0 = data.xIo.param.modbus.btOpCode ∧
      paramUInt8 (createdInfo data).xIo.param 8 = data.xIo.param.modbus.btSlaveAddr ∧
      paramUInt16 (createdInfo data).xIo.param 10 = data.xIo.param.modbus.usExtAddr := by
  obtain ⟨hop, hslave, haddr, -⟩ := by
    simpa only [List.forall_mem_cons]
      using showsAt_putAll (List.replicate 24 0) [(0, [data.xIo.param.modbus.btOpCode]),
      (8, [data.xIo.param.modbus.btSlaveAddr]), (10, uint16Bytes data.xIo.param.modbus.usExtAddr)]
      (by simp [uint16Bytes]) (by simp)
  exact ⟨paramUInt8_of_shows hop, paramUInt8_of_shows hslave, paramUInt16_of_shows haddr⟩

variable {group slave devType devNum proto}

/-- The variable of a register is what the register says if and only if the register is plain. -/
theorem saysReg_iff {reg : CJson} {types : EVarType × EVarType} (htypes : regTypes reg = some types)
    (hslave : 1 ≤ slave ∧ slave ≤ 247)
    (addr : UInt16) :
    SaysReg group slave reg (createdInfo (regVar group slave devType devNum proto reg types addr)) ↔
      PlainReg reg := by
  obtain ⟨rfl, haddr, hop⟩ := regTypes_eq htypes
  obtain ⟨hopParam, hslaveParam, haddrParam⟩ :=
    createdInfo_param (regVar group slave devType devNum proto reg (regInType reg, regOutType reg) addr)
  have halias : (given (reg.getString "alias")).getD "" = "" ↔
      given (reg.getString "alias") = none := by
    cases hgiven : given (reg.getString "alias") with
    | none => simp
    | some text =>
      have htext := (Option.filter_eq_some_iff.mp hgiven).2
      simpa using htext
  constructor
  · intro hshown
    exact ⟨hshown.inEndian.symm, hshown.outEndian.symm, halias.mp hshown.aliasText.symm,
      hshown.exp.2.symm⟩
  · intro hplain
    have hslaveInt : 1 ≤ slave.toInt ∧ slave.toInt ≤ 247 :=
      ⟨Int32.le_iff_toInt_le.mp hslave.1, Int32.le_iff_toInt_le.mp hslave.2⟩
    have haddrInt : 0 ≤ (reg.getInt "reg_addr" (-1)).toInt ∧
        (reg.getInt "reg_addr" (-1)).toInt ≤ 65535 :=
      ⟨Int32.le_iff_toInt_le.mp haddr.1, Int32.le_iff_toInt_le.mp haddr.2⟩
    refine ⟨rfl, rfl, ?_, ?_, ?_, eVarTypeOf_typeCode _, eVarTypeOf_typeCode _,
      hplain.inEndian.symm, hplain.outEndian.symm,
      (halias.mpr hplain.aliasText).symm, rfl, hplain.exp.symm⟩
    · rw [hopParam]
      rcases hop with hop | hop
      · exact toNat_toUInt8 (by rw [hop]; decide) (by rw [hop]; decide)
      · exact toNat_toUInt8 (by rw [hop]; decide) (by rw [hop]; decide)
    · rw [hslaveParam]
      exact toNat_toUInt8 (by omega) (by omega)
    · rw [haddrParam]
      exact toNat_toUInt16 haddrInt.1 haddrInt.2

/-- The loop over the registers that gets through creates a variable for each of them, at the next
addresses. -/
theorem regsLoop_created {room : ℕ} {vars : List ExtDataCfg} {regs : List CJson}
    (hdone : (regsLoop group slave devType devNum proto room vars regs).1 = 0) :
    (regsLoop group slave devType devNum proto room vars regs).2 =
      (regs.zip (nextAddrs (varMaxAddr vars) regs)).map fun x =>
        regVar group slave devType devNum proto x.1 (regInType x.1, regOutType x.1) x.2 := by
  induction regs generalizing room vars with
  | nil => rw [regsLoop, List.zip_nil_left, List.map_nil]
  | cons reg regs ih =>
    cases hname : varHasName vars (regName reg) with
    | true =>
      rw [regsLoop_taken group slave devType devNum proto hname] at hdone
      exact absurd hdone (by decide)
    | false =>
      cases htypes : regTypes reg with
      | none =>
        rw [regsLoop_wrong group slave devType devNum proto hname htypes] at hdone
        exact absurd hdone (by decide)
      | some types =>
        cases room with
        | zero =>
          rw [regsLoop_full group slave devType devNum proto hname htypes] at hdone
          exact absurd hdone (by decide)
        | succ room =>
          obtain ⟨rfl, -⟩ := regTypes_eq htypes
          rw [regsLoop_next group slave devType devNum proto hname htypes] at hdone ⊢
          have hrest := ih hdone
          rw [varMaxAddr_append] at hrest
          exact congrArg _ hrest

end Created

section Outcome

variable {env : CJsonEnv} {sql : SqlName} {fuel : ℕ} {st : VarStores} {chain : List ℕ}
  {made : ℤ × List ExtDataCfg}
  {rooms : List StoreRoom} (hsortable : VarsSortable st chain)
    (hfuel : chain.length + rooms.length < fuel)
  (hfresh : FreshRooms st rooms) (hlen : made.2.length ≤ rooms.length) (hrc : made.1 = 0)

include hsortable hfuel hfresh hlen hrc

/-- A call that gets through leaves only variables that were there or that it has created. -/
theorem createGroup_subperm : ∃ st', createGroup env sql fuel st made rooms = some st' ∧
    (liveInfos fuel st').Subperm (liveInfos fuel st ++ made.2.map createdInfo) := by
  obtain ⟨st₁, news, hcreate, -, hsortable₁, -, hnews, hinfos⟩ :=
    @createGroup_held env sql fuel st chain made rooms hsortable.toVarsHeld hfuel hfresh hlen
  rw [if_pos hrc] at hcreate
  have hroom : chain.length ≤ fuel := by omega
  have hroom₁ : (chain ++ news).length < fuel := by
    rw [List.length_append]
    omega
  obtain ⟨st', final, hsort, hsortable', hsubperm, hinfo, -⟩ :=
    @sortVars_sortable fuel st₁ (chain ++ news) [] (by simpa using hsortable₁ hsortable)
      (by simpa using hroom₁) ⟨nofun, List.Pairwise.nil⟩
  rw [List.append_nil] at hsortable'
  refine ⟨st', hcreate.trans hsort, ?_⟩
  rw [hsortable'.liveInfos_eq (hsubperm.length_le.trans hroom₁.le), hsortable.liveInfos_eq hroom,
    ← hinfos, chainInfos, hinfo]
  obtain ⟨kept, hperm, hsub⟩ := hsubperm
  exact ⟨kept.map st₁.info, hperm.map _, hsub.map _⟩

/-- It leaves all that it has created where the sort keeps new variables. -/
theorem createGroup_kept (hkept : KeepsNews fuel st (made.2.map (·.xIo.usAddr))) :
    ∃ st' kept, createGroup env sql fuel st made rooms = some st' ∧ kept ⊆ liveInfos fuel st ∧
      (liveInfos fuel st').Perm (kept ++ made.2.map createdInfo) := by
  obtain ⟨st₁, news, hcreate, hheld₁, hsortable₁, hlisted₁, hnews, hinfos⟩ :=
    @createGroup_held env sql fuel st chain made rooms hsortable.toVarsHeld hfuel hfresh hlen
  rw [if_pos hrc] at hcreate
  have hroom : chain.length ≤ fuel := by omega
  have hroom₁ : (chain ++ news).length < fuel := by
    rw [List.length_append]
    omega
  rw [hsortable.liveInfos_eq hroom]
  rw [KeepsNews, hsortable.liveInfos_eq hroom] at hkept
  obtain ⟨hold, hnew⟩ : chain.map st₁.info = chainInfos st chain ∧
      news.map st₁.info = made.2.map createdInfo := by
    rw [chainInfos, List.map_append] at hinfos
    exact List.append_inj hinfos (by rw [chainInfos, List.length_map, List.length_map])
  have hnewAddrs : news.map (fun p => (st₁.info p).xIo.usAddr) = made.2.map (·.xIo.usAddr) := by
    have haddrs := congrArg (List.map (·.xIo.usAddr)) hnew
    rwa [List.map_map, List.map_map] at haddrs
  have haddr {p : ℕ} (hp : p ∈ chain ++ news) : addrAt (dataOf st₁.list.heap) p =
      (st₁.info p).xIo.usAddr := by
    rw [addrAt, hheld₁.payload p hp]
    rfl
  rcases hkept with ⟨hrises, habove⟩ | ⟨⟨nodes, hlisted⟩, hsorts⟩
  · have haboveAll : AboveAll (dataOf st₁.list.heap) chain news := by
      refine ⟨fun x hx p hp => ?_, ?_⟩
      · rw [haddr (List.mem_append_left _ hp), haddr (List.mem_append_right _ hx)]
        refine habove _ (hnewAddrs ▸ List.mem_map_of_mem hx) _ (List.mem_map_of_mem ?_)
        exact hold ▸ List.mem_map_of_mem hp
      · rw [← hnewAddrs, List.pairwise_map] at hrises
        refine hrises.imp_of_mem fun hp hx hlt => ?_
        rwa [haddr (List.mem_append_right _ hp), haddr (List.mem_append_right _ hx)]
    obtain ⟨st', final, hsort, hsortable', hsubperm, hinfo, -⟩ :=
      sortVars_sortable (hsortable₁ hsortable) hroom₁ haboveAll
    refine ⟨st', final.map st₁.info, hcreate.trans hsort, ?_, ?_⟩
    · rw [← hold]
      exact List.map_subset _ hsubperm.subset
    · have hfinal := hsubperm.length_le
      rw [hsortable'.liveInfos_eq (by simp only [List.length_append] at hroom₁ ⊢; omega),
        chainInfos, hinfo, List.map_append, hnew]
  · have hchain : nodes.map Prod.fst = chain := hlisted.sortable.path.unique hsortable.path
    obtain ⟨nodes₁, hlisted₁, hnodes₁⟩ := hlisted₁ nodes hlisted hchain
    have hlen₁ : nodes₁.length < fuel := by
      rwa [← hnodes₁, List.length_map] at hroom₁
    have haddrs : nodes₁.map (·.2.xIo.usAddr) = (chainInfos st chain).map (·.xIo.usAddr) ++
        made.2.map (·.xIo.usAddr) := by
      have hpayload : nodes₁.map (·.2.xIo.usAddr) = (nodes₁.map Prod.fst).map fun p =>
          (st₁.info p).xIo.usAddr := by
        rw [List.map_map]
        refine List.map_congr_left fun x hx => ?_
        rw [hlisted₁.payload x hx]
        rfl
      rw [hpayload, hnodes₁, List.map_append, hnewAddrs, ← hold, List.map_map]
      rfl
    obtain ⟨list', nodes', hsort, hpath, hdata, hperm, -⟩ :=
      (sortsList_scan hlisted₁.inv hlen₁).mpr (haddrs ▸ hsorts)
    have hheld' : VarsHeld { st₁ with list := list' } (nodes'.map Prod.fst) := by
      refine ⟨hpath, fun p hp => ?_⟩
      obtain ⟨x, hx, rfl⟩ := List.mem_map.mp hp
      have hpayload := hlisted₁.payload x (hperm.mem_iff.mp hx)
      exact (hdata x hx).trans (congrArg some hpayload)
    refine ⟨{ st₁ with list := list' }, chainInfos st chain,
      hcreate.trans (by rw [sortVars, hsort]; rfl), List.Subset.refl _, ?_⟩
    rw [hheld'.liveInfos_eq (by rw [List.length_map, hperm.length_eq]; exact hlen₁.le),
      ← hinfos, ← hnodes₁]
    exact (hperm.map Prod.fst).map st₁.info

end Outcome

/-- Among variables with distinct names, and others of other names, one is found by its name. -/
theorem filter_name_eq {live kept created : List ExtDataInfo} {info : ExtDataInfo}
    (hperm : live.Perm (kept ++ created))
    (hkept : ∀ other ∈ kept, other.szName ≠ info.szName) (hnodup : (created.map (·.szName)).Nodup)
    (hinfo : info ∈ created) :
    live.filter (fun other => other.szName = info.szName) = [info] := by
  obtain ⟨before, after, rfl⟩ := List.append_of_mem hinfo
  rw [List.map_append, List.map_cons] at hnodup
  have hnone {others : List ExtDataInfo} (hothers : ∀ other ∈ others, other.szName ≠ info.szName) :
      others.filter (fun other => other.szName = info.szName) = [] :=
    List.filter_eq_nil_iff.mpr fun other hother => by simpa using hothers other hother
  have hfresh : ∀ other ∈ before ++ after, other.szName ≠ info.szName := by
    intro other hother heq
    refine (List.nodup_cons.mp (List.perm_middle.nodup hnodup)).1 (heq ▸ ?_)
    rw [← List.map_append]
    exact List.mem_map_of_mem hother
  have hfound := hperm.filter fun other => decide (other.szName = info.szName)
  rw [List.filter_append, hnone hkept, List.filter_append,
    hnone fun other h => hfresh other (List.mem_append_left _ h),
    List.filter_cons_of_pos (by simp),
    hnone fun other h => hfresh other (List.mem_append_right _ h)] at hfound
  exact List.perm_singleton.mp hfound

/-- The next addresses are as many as the registers. -/
theorem length_nextAddrs (max : UInt16 × ℕ) (regs : List CJson) :
    (nextAddrs max regs).length = regs.length := by
  induction regs generalizing max with
  | nil => rfl
  | cons reg regs ih => exact congrArg (· + 1) (ih _)

section Request

variable {env : CJsonEnv} {sql : SqlName} {fuel : ℕ} {st : VarStores} {chain : List ℕ} {obj : CJson}
  {devType devNum proto : Int32}
  {rooms : List StoreRoom}

/-- A request gets through if and only if it is not refused and its registers pass. -/
theorem varmanageAddDevWithJson_done_iff (room : ℕ) (vars : List ExtDataCfg) :
    (varmanageAddDevWithJson room vars obj devType devNum proto).1 = 0 ↔
      ¬ (AddCall.json obj devType devNum proto).Refused vars ∧ RegsPass room (regsOf obj) := by
  by_cases hrefused : (AddCall.json obj devType devNum proto).Refused vars
  · have hrc : (varmanageAddDevWithJson room vars obj devType devNum proto).1 ≠ 0 :=
      (AddCall.run_refused room hrefused).1
    exact iff_of_false hrc fun h => h.1 hrefused
  · obtain ⟨group, -, hloop⟩ := varmanageAddDevWithJson_loop room hrefused
    rw [hloop, regsLoop_done_iff, and_iff_right hrefused]
    exact and_iff_right (regs_of_not_refused hrefused).2

/-- A request that gets through creates a variable for each of its registers, with its name and the
next address. -/
theorem varmanageAddDevWithJson_created {room : ℕ} {vars : List ExtDataCfg}
    (hrc : (varmanageAddDevWithJson room vars obj devType devNum proto).1 = 0) :
    let created := (varmanageAddDevWithJson room vars obj devType devNum proto).2
    let slave := obj.getInt "slave" (-1)
    ∃ group, obj.getString "group" = some group ∧ created.map (·.szName) = (regsOf obj).map regName ∧
      created.map (·.xIo.usAddr) = nextAddrs (varMaxAddr vars) (regsOf obj) ∧
      (∀ reg ∈ regsOf obj, ∃ addr, regVar group slave devType devNum proto reg (regInType reg,
      regOutType reg) addr ∈ created) ∧
      ∀ data ∈ created, ∃ reg ∈ regsOf obj, ∃ addr,
        data = regVar group slave devType devNum proto reg (regInType reg, regOutType reg) addr := by
  intro created slave
  obtain ⟨hrefused, -⟩ := (varmanageAddDevWithJson_done_iff room vars).mp hrc
  obtain ⟨group, hgroup, hloop⟩ := varmanageAddDevWithJson_loop room hrefused
  set news := nextAddrs (varMaxAddr vars) (regsOf obj) with hnews
  have hlen : (regsOf obj).length = news.length := (length_nextAddrs ..).symm
  have hcreated : created = ((regsOf obj).zip news).map fun x =>
      regVar group slave devType devNum proto x.1 (regInType x.1, regOutType x.1) x.2 :=
    (congrArg Prod.snd hloop).trans (regsLoop_created (hloop ▸ hrc))
  have hfst : ((regsOf obj).zip news).map Prod.fst = regsOf obj := List.map_fst_zip hlen.le
  have hsnd : ((regsOf obj).zip news).map Prod.snd = news := List.map_snd_zip hlen.ge
  refine ⟨group, hgroup, ?_, ?_, fun reg hreg => ?_, fun data hdata => ?_⟩
  · rw [hcreated, List.map_map, ← congrArg (List.map regName) hfst, List.map_map]
    rfl
  · rw [hcreated, List.map_map]
    exact hsnd
  · rw [← hfst] at hreg
    obtain ⟨x, hx, rfl⟩ := List.mem_map.mp hreg
    exact ⟨x.2, hcreated ▸ List.mem_map_of_mem hx⟩
  · rw [hcreated] at hdata
    obtain ⟨x, hx, rfl⟩ := List.mem_map.mp hdata
    exact ⟨x.1, (List.of_mem_zip hx).1, x.2, rfl⟩

/-- An accepted request takes full effect only if none of its registers has anything that a variable
does not keep; where the sort keeps the new variables it does so then. -/
theorem takesEffect_iff (hsortable : VarsSortable st chain)
    (hfuel : chain.length + rooms.length < fuel) (hfresh : FreshRooms st rooms) :
    let vars := (liveInfos fuel st).map groupView
    (TakesEffect env sql fuel st obj devType devNum proto rooms →
      PlainRequest rooms.length vars obj devType devNum proto) ∧
      (PlainRequest rooms.length vars obj devType devNum proto →
      KeepsNews fuel st (nextAddrs (varMaxAddr vars) (regsOf obj)) →
        TakesEffect env sql fuel st obj devType devNum proto rooms) := by
  intro vars
  rw [TakesEffect, PlainRequest]
  set made := groupMade fuel st (.dev obj devType devNum proto) rooms with hmade
  have hdone : made.1 = 0 ↔ _ :=
    @varmanageAddDevWithJson_done_iff obj devType devNum proto rooms.length vars
  by_cases hrc : made.1 = 0
  · obtain ⟨hrefused, hmembers, hnodup, -⟩ := hdone.mp hrc
    obtain ⟨-, hfree⟩ := regs_of_not_refused hrefused
    have hlen : made.2.length ≤ rooms.length := GroupCall.made_length_le ..
    have hslave : 1 ≤ obj.getInt "slave" (-1) ∧ obj.getInt "slave" (-1) ≤ 247 :=
      ⟨Int32.not_lt.mp fun h => hrefused (.inl h), Int32.not_lt.mp fun h => hrefused (.inr (.inl h))⟩
    obtain ⟨group, hgroup, hnames, haddrs, hregs, hdata⟩ := varmanageAddDevWithJson_created hrc
    have hother : ∀ reg ∈ regsOf obj, ∀ other ∈ liveInfos fuel st, other.szName ≠ regName reg := by
      intro reg hreg other hother heq
      have hnot := hfree reg hreg
      rw [varHasName, List.any_eq_false] at hnot
      exact hnot (groupView other) (List.mem_map_of_mem hother) (decide_eq_true heq.symm)
    have hshown {reg : CJson} (hreg : reg ∈ regsOf obj) (addr : UInt16) :
      SaysReg group (obj.getInt "slave" (-1)) reg
        (createdInfo (regVar group (obj.getInt "slave" (-1)) devType devNum proto reg
          (regInType reg, regOutType reg) addr)) ↔
          PlainReg reg := by
      obtain ⟨types, htypes⟩ := Option.ne_none_iff_exists'.mp (hmembers reg hreg)
      rw [← (regTypes_eq htypes).1]
      exact saysReg_iff htypes hslave addr
    constructor
    · refine fun htakes => .inr (.inr fun reg hreg => ?_)
      obtain ⟨st', hcreate, heach⟩ := htakes hrc
      obtain ⟨info, hfilter, hinfo⟩ := heach group hgroup reg hreg
      obtain ⟨st'', hcreate', hsubperm⟩ :=
        @createGroup_subperm env sql fuel st chain made rooms hsortable hfuel hfresh hlen hrc
      obtain rfl := Option.some.inj (hcreate.symm.trans hcreate')
      have hmem : info ∈ liveInfos fuel st' :=
        List.mem_of_mem_filter (hfilter ▸ List.mem_singleton_self info)
      rcases List.mem_append.mp (hsubperm.subset hmem) with hold | hnew
      · exact absurd hinfo.name (hother reg hreg info hold)
      · obtain ⟨data, hdataMem, rfl⟩ := List.mem_map.mp hnew
        obtain ⟨reg', hreg', addr, rfl⟩ := hdata data hdataMem
        have hsame : reg' = reg := List.inj_on_of_nodup_map hnodup hreg' hreg hinfo.name
        subst hsame
        exact (hshown hreg addr).mp hinfo
    · intro hplain hkept _
      have hplain := (hplain.resolve_left hrefused).resolve_left (not_not_intro (hdone.mp hrc).2)
      obtain ⟨st', kept, hcreate, hsub, hperm⟩ :=
        @createGroup_kept env sql fuel st chain made rooms hsortable hfuel hfresh hlen hrc
          (haddrs ▸ hkept)
      refine ⟨st', hcreate, fun group' hgroup' reg hreg => ?_⟩
      obtain rfl := Option.some.inj (hgroup.symm.trans hgroup')
      obtain ⟨addr, hcreated⟩ := hregs reg hreg
      refine ⟨_, filter_name_eq hperm (fun other h => hother reg hreg other (hsub h)) ?_
        (List.mem_map_of_mem hcreated),
        (hshown hreg addr).mpr (hplain reg hreg)⟩
      have hcreatedNames : (made.2.map createdInfo).map (·.szName) = (regsOf obj).map regName := by
        rw [List.map_map, ← hnames]
        rfl
      rwa [hcreatedNames]
  · have hnot : ¬ (¬ (AddCall.json obj devType devNum proto).Refused vars ∧
      RegsPass rooms.length (regsOf obj)) := fun h => hrc (hdone.mpr h)
    refine ⟨fun _ => ?_, fun _ _ hok => absurd hok hrc⟩
    by_cases hrefused : (AddCall.json obj devType devNum proto).Refused vars
    · exact .inl hrefused
    · exact .inr (.inl fun hpass => hnot ⟨hrefused, hpass⟩)

end Request

local instance (priority := 1100) decidableNews (p : UInt16 → Prop) [DecidablePred p]
  (addrs : List UInt16) :
    Decidable (∀ a ∈ addrs, p a) :=
  List.decidableBAll p addrs

/-- Two registers without a byte order, an alias or an expression become what they say in an empty
list. -/
theorem takesEffect_plain :
    TakesEffect (plainEnv .null) plainSql 3 emptyStores (deviceOf [regOf "a" 3, regOf "b" 4]) 0 0 0
      [plainRoom 1, plainRoom 2] := by
  have hplain : PlainRequest 2 ((liveInfos 3 emptyStores).map groupView)
      (deviceOf [regOf "a" 3, regOf "b" 4]) 0 0 0 := by
    refine .inr (.inr fun reg hreg => ?_)
    change reg ∈ [regOf "a" 3, regOf "b" 4] at hreg
    rcases List.mem_pair.mp hreg with rfl | rfl
    · exact ⟨by decide, by decide, by decide, by decide⟩
    · exact ⟨by decide, by decide, by decide, by decide⟩
  exact (takesEffect_iff emptyStores_listed.sortable (by decide) emptyStores_fresh).2 hplain
    (.inl ⟨by decide, by decide⟩)

/-- A register whose two words come the other way round. -/
def swappedReg : CJson :=
  .object [("name", .string "a"), ("op", .number 3), ("in_type", .string "FLOAT"),
    ("in_endian", .string "CD AB"), ("reg_addr", .number 10)]

/-- Its variable takes them as they come. -/
theorem not_takesEffect_swapped :
    ¬ ∀ (env : CJsonEnv) (sql : SqlName) (fuel : ℕ) (st : VarStores) (chain : List ℕ) (obj : CJson)
    (devType devNum proto : Int32) (rooms : List StoreRoom), VarsSortable st chain →
      chain.length + rooms.length < fuel →
    FreshRooms st rooms → TakesEffect env sql fuel st obj devType devNum proto rooms := by
  intro h
  obtain ⟨st', hcreate, heach⟩ :=
    h (plainEnv .null) plainSql 3 emptyStores [] (deviceOf [swappedReg]) 0 0 0 [plainRoom 1,
    plainRoom 2]
    emptyStores_listed.sortable (by decide) emptyStores_fresh (by decide)
  obtain ⟨info, hfilter, hshown⟩ := heach "g" (by decide) swappedReg List.mem_cons_self
  have hmem : info ∈ liveInfos 3 st' := List.mem_of_mem_filter (hfilter ▸ List.mem_singleton_self info)
  have hcodes := congrArg (Option.map fun st => (liveInfos 3 st).map (·.xIo.btInVarRuleType)) hcreate
  have hcomputed : some [0] = some ((liveInfos 3 st').map (·.xIo.btInVarRuleType)) := hcodes
  have hzero : info.xIo.btInVarRuleType ∈ [(0 : UInt8)] :=
    Option.some.inj hcomputed ▸ List.mem_map_of_mem hmem
  have hswapped := hshown.inEndian
  rw [List.mem_singleton.mp hzero] at hswapped
  exact absurd hswapped (by decide)

end DasEdge.VarManage
