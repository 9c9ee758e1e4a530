import DasEdge.VarManage.SyncSlaveLinkCoverage

/-!
# Every variable is polled unless its range ends at the top

The plan before merging holds the range of every enabled Modbus variable, ascending within its slave
node. With what merging does to one slave node this decides exactly which variables are polled.
-/

namespace DasEdge.VarManage

/-- A slave node polls the device, protocol, op code and slave address of a variable. -/
def PollsVariable (slave : SyncSlave) (data : ExtData) : Prop :=
  slave.devType.toNat = data.xIo.usDevType.toNat ∧ slave.devNum.toNat = data.xIo.usDevNum.toNat ∧
    slave.protoType.toNat = data.xIo.usProtoType.toNat ∧
    ∃ faAddr, slave.param = .modbus data.xIo.param.modbus.btOpCode
      data.xIo.param.modbus.btSlaveAddr faAddr

/-- A slave node of the plan polls a variable and has a range around its whole input range. -/
def VariableCovered (plan : List SyncSlave) (data : ExtData) : Prop :=
  ∃ slave ∈ plan, PollsVariable slave data ∧
    ∃ ext, .modbus ext ∈ slave.extList ∧ ext.addr.toNat ≤ data.xIo.param.modbus.usExtAddr.toNat ∧
      data.extStop ≤ ext.stop

/-- An enabled Modbus variable whose input range ends at or below 65536. -/
def PollPromised (data : ExtData) : Prop :=
  data.bEnable = true ∧ protoIsModbus data.xIo.usDevType.toNat data.xIo.usProtoType.toNat = true ∧
    data.extStop ≤ 2 ^ 16

/-- The plan covers every enabled Modbus variable, and its ranges are within the size limit. -/
def PollCoverage (vars : List ExtData) : Prop :=
  (∀ data ∈ vars, PollPromised data → VariableCovered (creatSyncSlaveLink vars) data) ∧
    ∀ slave ∈ creatSyncSlaveLink vars, protoIsModbus slave.devType.toNat slave.protoType.toNat = true →
      ∀ ext, .modbus ext ∈ slave.extList → ext.size.toNat ≤ syncExtMaxSize

/-- Every variable's device number fits the 8 bits of a slave node, and a range that ends at 65536 lies
in one that no range of its slave node below the top reaches. -/
def PollSafe (vars : List ExtData) : Prop :=
  ∀ data ∈ vars, PollPromised data → data.xIo.usDevNum.toNat < 2 ^ 8 ∧
    (data.extStop = 2 ^ 16 → ∃ slave ∈ addedSyncSlaves vars, PollsVariable slave data ∧
      ∃ ext, .modbus ext ∈ slave.extList ∧ ext.addr.toNat ≤ data.xIo.param.modbus.usExtAddr.toNat ∧
        2 ^ 16 ≤ ext.stop ∧
        ∀ other, .modbus other ∈ slave.extList → other.stop < 2 ^ 16 → other.stop < ext.addr.toNat)

/-- A Modbus slave node holds ascending ranges of single variables. -/
def SlaveSorted (slave : SyncSlave) : Prop :=
  protoIsModbus slave.devType.toNat slave.protoType.toNat = true →
    ∃ node exts, slave.extList = (node :: exts).map SyncExt.modbus ∧ RangesSorted (node :: exts)

/-- A slave node polls a variable and holds its own range. -/
def HoldsRange (slave : SyncSlave) (data : ExtData) : Prop :=
  PollsVariable slave data ∧ .modbus (modbusExt data) ∈ slave.extList

/-- Modbus devices and protocols are small codes. -/
theorem protoIsModbus_bound {devType protoType : ℕ} (h : protoIsModbus devType protoType = true) :
    devType ≤ 5 ∧ protoType ≤ 2 := by
  simp only [protoIsModbus, protoDevIsRs, protoDevIsNetOrGprs, protoDevIsRadio, Bool.or_eq_true,
    decide_eq_true_eq] at h
  split_ifs at h <;> simp only [Bool.or_eq_true, decide_eq_true_eq] at h <;> omega

/-- The chain of tests reaches Modbus exactly for a Modbus device and protocol. -/
theorem syncClass_modbus {devType devNum protoType : ℕ} :
    syncClass devType devNum protoType = .modbus ↔ protoIsModbus devType protoType = true := by
  constructor
  · intro h
    simp only [syncClass] at h
    grind
  · intro h
    have hbound := protoIsModbus_bound h
    have hself : protoIsRtuSelf devType devNum = false := by
      simp only [protoIsRtuSelf, Bool.and_eq_false_iff, decide_eq_false_iff_not]
      omega
    have hmid : protoIsRtuSelfMid devType = false := by
      simp only [protoIsRtuSelfMid, decide_eq_false_iff_not]
      omega
    simp [syncClass, hself, hmid, h]

/-- The range of a variable as its ext node stores it. -/
theorem modbusExt_stop (data : ExtData) : (modbusExt data).stop = data.extStop := by
  have hregs := typeRegs_le data.xIo.btInVarType
  have hsize : (typeRegs data.xIo.btInVarType).toUInt8.toNat = typeRegs data.xIo.btInVarType := by
    simpa using Nat.mod_eq_of_lt (by omega : typeRegs data.xIo.btInVarType < 256)
  simp only [SyncExtModbus.stop, modbusExt, ExtData.extStop, hsize]

/-- The range of one variable has at most four registers. -/
theorem modbusExt_size (data : ExtData) : (modbusExt data).size.toNat ≤ 4 := by
  have hstop := modbusExt_stop data
  have hregs := typeRegs_le data.xIo.btInVarType
  simp only [SyncExtModbus.stop, modbusExt, ExtData.extStop] at hstop ⊢
  omega

/-- Inserting a range keeps the ranges, their order and the new range. -/
theorem insertSyncExt_sorted (new : SyncExtModbus) (exts : List SyncExtModbus)
    (hnew : new.size.toNat ≤ 4)
    (hexts : RangesSorted exts) :
    ∃ exts', insertSyncExt new (exts.map .modbus) = exts'.map .modbus ∧ RangesSorted exts' ∧
      new ∈ exts' ∧
      exts ⊆ exts' ∧ ∀ ext ∈ exts', ext = new ∨ ext ∈ exts := by
  induction exts with
  | nil => exact ⟨[new], rfl, ⟨List.pairwise_singleton _ _, by simpa using hnew⟩, by simp, by
    simp, by simp⟩
  | cons ext exts ih =>
    obtain ⟨hhead, htail⟩ := List.pairwise_cons.mp hexts.sorted
    rw [List.map_cons, insertSyncExt]
    by_cases hlt : new.addr < ext.addr
    · rw [if_pos hlt]
      have hle : new.addr.toNat < ext.addr.toNat := UInt16.lt_iff_toNat_lt.mp hlt
      refine ⟨new :: ext :: exts, rfl, ⟨List.pairwise_cons.mpr ⟨?_, hexts.sorted⟩, ?_⟩, by simp, by
        simp, by simp⟩
      · intro other hother
        rcases List.mem_cons.mp hother with rfl | hother
        · exact hle.le
        · exact hle.le.trans (hhead other hother)
      · intro other hother
        rcases List.mem_cons.mp hother with rfl | hother
        · exact hnew
        · exact hexts.size_le other hother
    · rw [if_neg hlt]
      have hge : ext.addr.toNat ≤ new.addr.toNat := UInt16.le_iff_toNat_le.mp (UInt16.not_lt.mp hlt)
      by_cases heq : (new.addr = ext.addr && new.ofs = ext.ofs && new.size = ext.size) = true
      · rw [if_pos heq]
        simp only [Bool.and_eq_true, decide_eq_true_eq] at heq
        obtain ⟨⟨haddr, hofs⟩, hsize⟩ := heq
        have hsame : new = ext := by
          cases new
          cases ext
          simp_all
        exact ⟨ext :: exts, rfl, hexts, by simp [hsame], fun _ h => h, fun _ h => .inr h⟩
      · rw [if_neg heq]
        obtain ⟨exts', hinsert, hsorted, hmem, hsub, honly⟩ :=
          ih ⟨htail, fun other h => hexts.size_le other (List.mem_cons_of_mem _ h)⟩
        refine ⟨ext :: exts', by rw [hinsert]; rfl, ⟨List.pairwise_cons.mpr ⟨?_, hsorted.sorted⟩, ?_⟩,
          List.mem_cons_of_mem _ hmem, List.cons_subset_cons _ hsub, ?_⟩
        · intro other hother
          rcases honly other hother with rfl | hother
          · exact hge
          · exact hhead other hother
        · intro other hother
          rcases List.mem_cons.mp hother with rfl | hother
          · exact hexts.size_le other List.mem_cons_self
          · exact hsorted.size_le other hother
        · intro other hother
          rcases List.mem_cons.mp hother with rfl | hother
          · exact .inr List.mem_cons_self
          · exact (honly other hother).imp_right (List.mem_cons_of_mem _)

/-- A new slave node holds the one range of its variable. -/
theorem addSyncSlaveNode_sorted (data : ExtData) : SlaveSorted (addSyncSlaveNode data) := by
  intro hmodbus
  refine ⟨modbusExt data, [], ?_, ⟨List.pairwise_singleton _ _, by simpa using modbusExt_size data⟩⟩
  simp only [addSyncSlaveNode] at hmodbus ⊢
  rw [syncClass_modbus.mpr hmodbus]
  rfl

/-- What happens to a slave node that a variable was added to. -/
theorem addExtToSlave_spec (data : ExtData) (slave : SyncSlave) (hsorted : SlaveSorted slave) :
    SlaveSorted (addExtToSlave data slave) ∧
      (∀ other, PollsVariable (addExtToSlave data slave) other ↔ PollsVariable slave other) ∧
      (∀ ext, .modbus ext ∈ slave.extList → .modbus ext ∈ (addExtToSlave data slave).extList) ∧
      (protoIsModbus slave.devType.toNat slave.protoType.toNat = true →
        .modbus (modbusExt data) ∈ (addExtToSlave data slave).extList) := by
  have hclass : slave.syncClass = .modbus ↔
      protoIsModbus slave.devType.toNat slave.protoType.toNat = true :=
    syncClass_modbus
  by_cases hmodbus : protoIsModbus slave.devType.toNat slave.protoType.toNat = true
  · obtain ⟨node, exts, hlist, hranges⟩ := hsorted hmodbus
    obtain ⟨exts', hinsert, hsorted', hmem, hsub, -⟩ :=
      insertSyncExt_sorted (modbusExt data) (node :: exts) (modbusExt_size data) hranges
    have hadd : addExtToSlave data slave = { slave with extList := exts'.map .modbus } := by
      rw [addExtToSlave, hclass.mpr hmodbus, hlist, hinsert]
    rw [hadd]
    refine ⟨fun _ => ?_, fun _ => Iff.rfl, ?_, fun _ => List.mem_map_of_mem hmem⟩
    · obtain ⟨node', rest', rfl⟩ := List.exists_cons_of_ne_nil (List.ne_nil_of_mem hmem)
      exact ⟨node', rest', rfl, hsorted'⟩
    · intro ext hext
      rw [hlist] at hext
      obtain ⟨_, hext, ⟨⟩⟩ := List.mem_map.mp hext
      exact List.mem_map_of_mem (hsub hext)
  · have hadd : ∃ tail, addExtToSlave data slave = { slave with extList := slave.extList ++ tail } := by
      rw [addExtToSlave]
      split
      · next h => exact absurd (hclass.mp h) hmodbus
      · exact ⟨[], by simp⟩
      · exact ⟨_, rfl⟩
    obtain ⟨tail, hadd⟩ := hadd
    rw [hadd]
    exact ⟨fun h => absurd h hmodbus, fun _ => Iff.rfl, fun ext hext => List.mem_append_left _ hext,
      fun h => absurd h hmodbus⟩

/-- A slave node that is searched for a Modbus variable and found polls it. -/
theorem findSyncSlaveNode_polls {data : ExtData} {slave : SyncSlave}
    (hmodbus : protoIsModbus data.xIo.usDevType.toNat data.xIo.usProtoType.toNat = true)
    (hfind : findSyncSlaveNode data slave = true) : PollsVariable slave data := by
  have hclass : data.syncClass = .modbus := syncClass_modbus.mpr hmodbus
  rw [findSyncSlaveNode, hclass] at hfind
  cases hparam : slave.param with
  | modbus op slaveAddr faAddr =>
    simp only [hparam, syncSlaveHasDev, Bool.and_eq_true, decide_eq_true_eq] at hfind
    obtain ⟨⟨⟨rfl, -⟩, rfl⟩, ⟨hdev, hnum⟩, hproto⟩ := hfind
    exact ⟨hdev, hnum, hproto, faAddr, hparam⟩
  | _ => simp [hparam] at hfind

/-- A new slave node for a Modbus variable holds its range, if the device number fits 8 bits. -/
theorem addSyncSlaveNode_holds {data : ExtData}
    (hmodbus : protoIsModbus data.xIo.usDevType.toNat data.xIo.usProtoType.toNat = true)
    (hnum : data.xIo.usDevNum.toNat < 2 ^ 8) : HoldsRange (addSyncSlaveNode data) data := by
  have hbound := protoIsModbus_bound hmodbus
  have hdev' : data.xIo.usDevType.toUInt8.toNat = data.xIo.usDevType.toNat := by
    rw [UInt16.toNat_toUInt8]
    omega
  have hnum' : data.xIo.usDevNum.toUInt8.toNat = data.xIo.usDevNum.toNat := by
    rw [UInt16.toNat_toUInt8]
    omega
  have hproto' : data.xIo.usProtoType.toUInt8.toNat = data.xIo.usProtoType.toNat := by
    rw [UInt16.toNat_toUInt8]
    omega
  have hclass : syncClass data.xIo.usDevType.toNat data.xIo.usDevNum.toNat
      data.xIo.usProtoType.toNat = .modbus :=
    syncClass_modbus.mpr hmodbus
  simp only [HoldsRange, PollsVariable, addSyncSlaveNode, hdev', hnum', hproto', hclass]
  exact ⟨⟨trivial, trivial, trivial, _, rfl⟩, by simp [newSyncExt]⟩

/-- Adding a variable keeps the plan sorted and the ranges it holds, and adds its own range. -/
theorem addSyncExtNode_spec (data : ExtData) (plan : List SyncSlave)
    (hplan : ∀ slave ∈ plan, SlaveSorted slave) :
    (∀ slave ∈ addSyncExtNode data plan, SlaveSorted slave) ∧
      (∀ other, (∃ slave ∈ plan, HoldsRange slave other) →
        ∃ slave ∈ addSyncExtNode data plan, HoldsRange slave other) ∧
      (protoIsModbus data.xIo.usDevType.toNat data.xIo.usProtoType.toNat = true →
      data.xIo.usDevNum.toNat < 2 ^ 8 →
        ∃ slave ∈ addSyncExtNode data plan, HoldsRange slave data) := by
  induction plan with
  | nil =>
    simp only [addSyncExtNode, List.mem_singleton, forall_eq, exists_eq_left]
    exact ⟨addSyncSlaveNode_sorted data, by simp, addSyncSlaveNode_holds⟩
  | cons slave plan ih =>
    obtain ⟨hsorted, hkept, hadded⟩ := ih fun other h => hplan other (List.mem_cons_of_mem _ h)
    obtain ⟨hslave, hpolls, hranges, hown⟩ :=
      addExtToSlave_spec data slave (hplan slave List.mem_cons_self)
    rw [addSyncExtNode]
    by_cases hfind : findSyncSlaveNode data slave = true
    · rw [if_pos hfind]
      simp only [List.forall_mem_cons, List.exists_mem_cons_iff]
      refine ⟨⟨hslave, fun other h => hplan other (List.mem_cons_of_mem _ h)⟩, ?_, ?_⟩
      · rintro other (⟨hpoll, hmem⟩ | hother)
        · exact .inl ⟨(hpolls other).mpr hpoll, hranges _ hmem⟩
        · exact .inr hother
      · intro hmodbus _
        have hpoll := findSyncSlaveNode_polls hmodbus hfind
        refine .inl ⟨(hpolls data).mpr hpoll, hown ?_⟩
        rw [hpoll.1, hpoll.2.2.1]
        exact hmodbus
    · rw [if_neg hfind]
      simp only [List.forall_mem_cons, List.exists_mem_cons_iff]
      refine ⟨⟨hplan slave List.mem_cons_self, hsorted⟩, ?_,
        fun hmodbus hnum => .inr (hadded hmodbus hnum)⟩
      rintro other (hother | hother)
      · exact .inl hother
      · exact .inr (hkept other hother)

/-- The plan before merging is sorted and holds the range of every enabled Modbus variable. -/
theorem addedSyncSlaves_spec (vars : List ExtData) :
    (∀ slave ∈ addedSyncSlaves vars, SlaveSorted slave) ∧
      ∀ data ∈ vars, data.bEnable = true →
        protoIsModbus data.xIo.usDevType.toNat data.xIo.usProtoType.toNat = true →
        data.xIo.usDevNum.toNat < 2 ^ 8 → ∃ slave ∈ addedSyncSlaves vars, HoldsRange slave data := by
  induction vars using List.reverseRecOn with
  | nil => simp [addedSyncSlaves]
  | append_singleton vars last ih =>
    obtain ⟨hsorted, hholds⟩ := ih
    have hadd : addedSyncSlaves (vars ++ [last]) =
        if last.bEnable then addSyncExtNode last (addedSyncSlaves vars) else addedSyncSlaves vars := by
      simp [addedSyncSlaves, List.foldl_append]
    obtain ⟨hsorted', hkept, hadded⟩ := addSyncExtNode_spec last _ hsorted
    rw [hadd]
    split
    · refine ⟨hsorted', ?_⟩
      intro data hdata henable hmodbus hnum
      rcases List.mem_append.mp hdata with hdata | hdata
      · exact hkept data (hholds data hdata henable hmodbus hnum)
      · obtain rfl := List.mem_singleton.mp hdata
        exact hadded hmodbus hnum
    · next hdisabled =>
      refine ⟨hsorted, ?_⟩
      intro data hdata henable
      rcases List.mem_append.mp hdata with hdata | hdata
      · exact hholds data hdata henable
      · obtain rfl := List.mem_singleton.mp hdata
        exact absurd henable hdisabled

/-- Merging one slave node of the plan only changes its ranges. -/
theorem trimSyncSlave_eq {slave : SyncSlave} {node : SyncExtModbus} {exts : List SyncExtModbus}
    (hmodbus : protoIsModbus slave.devType.toNat slave.protoType.toNat = true)
    (hlist : slave.extList = (node :: exts).map SyncExt.modbus) :
    trimSyncSlave slave = { slave with extList := trimExtList node (exts.map .modbus) } := by
  rw [trimSyncSlave, if_pos hmodbus, hlist]
  rfl

/-- Merging leaves the device, protocol and address of a slave node alone. -/
theorem trimSyncSlave_fields (slave : SyncSlave) :
    (trimSyncSlave slave).devType = slave.devType ∧ (trimSyncSlave slave).devNum = slave.devNum ∧
      (trimSyncSlave slave).protoType = slave.protoType ∧
      (trimSyncSlave slave).param = slave.param := by
  rw [trimSyncSlave]
  split
  · split <;> exact ⟨rfl, rfl, rfl, rfl⟩
  · exact ⟨rfl, rfl, rfl, rfl⟩

/-- Merging does not change which variables a slave node polls. -/
theorem trimSyncSlave_polls (slave : SyncSlave) (data : ExtData) :
    PollsVariable (trimSyncSlave slave) data ↔ PollsVariable slave data := by
  obtain ⟨hdev, hnum, hproto, hparam⟩ := trimSyncSlave_fields slave
  simp only [PollsVariable, hdev, hnum, hproto, hparam]

/-- A slave node that polls a Modbus variable is a Modbus node. -/
theorem PollsVariable.modbus {slave : SyncSlave} {data : ExtData} (h : PollsVariable slave data)
    (hmodbus : protoIsModbus data.xIo.usDevType.toNat data.xIo.usProtoType.toNat = true) :
    protoIsModbus slave.devType.toNat slave.protoType.toNat = true := by
  rw [h.1, h.2.2.1]
  exact hmodbus

/-- Every range of the final plan is within the size limit. -/
theorem creatSyncSlaveLink_size (vars : List ExtData) (slave : SyncSlave)
    (hslave : slave ∈ creatSyncSlaveLink vars)
    (hmodbus : protoIsModbus slave.devType.toNat slave.protoType.toNat = true) (ext : SyncExtModbus)
    (hext : .modbus ext ∈ slave.extList) : ext.size.toNat ≤ syncExtMaxSize := by
  obtain ⟨before, hbefore, rfl⟩ := List.mem_map.mp hslave
  obtain ⟨hdev, -, hproto, -⟩ := trimSyncSlave_fields before
  rw [hdev, hproto] at hmodbus
  obtain ⟨node, exts, hlist, hranges⟩ := (addedSyncSlaves_spec vars).1 before hbefore hmodbus
  rw [trimSyncSlave_eq hmodbus hlist] at hext
  exact trimExtList_size (fits_of_size (hranges.size_le node List.mem_cons_self))
    (List.pairwise_cons.mp hranges.sorted).1
    ⟨(List.pairwise_cons.mp hranges.sorted).2,
      fun ext h => hranges.size_le ext (List.mem_cons_of_mem _ h)⟩ ext hext

/-- The plan covers every enabled Modbus variable exactly when the ranges at the top stand alone. -/
theorem creatSyncSlaveLink_covers_iff (vars : List ExtData) : PollCoverage vars ↔ PollSafe vars := by
  obtain ⟨hsorted, hholds⟩ := addedSyncSlaves_spec vars
  -- what merging does to the ranges of a slave node that polls a Modbus variable
  have htrim : ∀ slave ∈ addedSyncSlaves vars, ∀ data, PollsVariable slave data →
      protoIsModbus data.xIo.usDevType.toNat data.xIo.usProtoType.toNat = true →
      ∃ node exts, slave.extList = (node :: exts).map SyncExt.modbus ∧
        (trimSyncSlave slave).extList = trimExtList node (exts.map .modbus) ∧ node.Fits ∧
        (∀ ext ∈ exts, node.addr.toNat ≤ ext.addr.toNat) ∧ RangesSorted exts := by
    intro slave hslave data hpolls hmodbus
    obtain ⟨node, exts, hlist, hranges⟩ := hsorted slave hslave (hpolls.modbus hmodbus)
    obtain ⟨hfirst, hrest⟩ := List.pairwise_cons.mp hranges.sorted
    exact ⟨node, exts, hlist, by rw [trimSyncSlave_eq (hpolls.modbus hmodbus) hlist],
      fits_of_size (hranges.size_le node List.mem_cons_self), hfirst, hrest,
      fun ext h => hranges.size_le ext (List.mem_cons_of_mem _ h)⟩
  have hmem : ∀ (node : SyncExtModbus) (exts : List SyncExtModbus) (ext : SyncExtModbus),
      SyncExt.modbus ext ∈ (node :: exts).map SyncExt.modbus ↔ ext ∈ node :: exts := by
    intro node exts ext
    exact List.mem_map_of_injective fun _ _ h => SyncExt.modbus.inj h
  constructor
  · rintro ⟨hcovered, -⟩ data hdata hpromised
    obtain ⟨slave', hslave', hpolls', ext, hext, hstart, hstop⟩ := hcovered data hdata hpromised
    obtain ⟨slave, hslave, rfl⟩ := List.mem_map.mp hslave'
    have hpolls := (trimSyncSlave_polls slave data).mp hpolls'
    refine ⟨hpolls.2.1 ▸ slave.devNum.toNat_lt, ?_⟩
    intro htop
    obtain ⟨node, exts, hlist, htrimmed, hfits, hfirst, hrest⟩ :=
      htrim slave hslave data hpolls hpromised.2.1
    rw [htrimmed] at hext
    obtain ⟨alone, halone, ⟨hhigh, hothers⟩, hle⟩ := (trimExtList_covers_high hfits hfirst hrest _).mp
      ⟨ext, hext, htop ▸ hstop, hstart⟩
    refine ⟨slave, hslave, hpolls, alone, ?_, hle, hhigh, ?_⟩
    · rw [hlist, hmem]
      exact halone
    · intro other hother
      rw [hlist, hmem] at hother
      exact hothers other hother
  · intro hsafe
    refine ⟨?_, creatSyncSlaveLink_size vars⟩
    intro data hdata hpromised
    obtain ⟨hnum, htop⟩ := hsafe data hdata hpromised
    rcases Nat.lt_or_ge data.extStop (2 ^ 16) with hlow | hhigh
    · obtain ⟨slave, hslave, hpolls, hext⟩ := hholds data hdata hpromised.1 hpromised.2.1 hnum
      obtain ⟨node, exts, hlist, htrimmed, hfits, hfirst, hrest⟩ :=
        htrim slave hslave data hpolls hpromised.2.1
      rw [hlist, hmem] at hext
      refine ⟨trimSyncSlave slave, List.mem_map_of_mem hslave,
        (trimSyncSlave_polls slave data).mpr hpolls, ?_⟩
      rw [htrimmed]
      exact trimExtList_covers_low hfits hfirst hrest _ _
        ⟨modbusExt data, hext, by rwa [modbusExt_stop], le_rfl, (modbusExt_stop data).ge⟩
    · have heq : data.extStop = 2 ^ 16 := le_antisymm hpromised.2.2 hhigh
      obtain ⟨slave, hslave, hpolls, alone, halone, hle, hreach, hothers⟩ := htop heq
      obtain ⟨node, exts, hlist, htrimmed, hfits, hfirst, hrest⟩ :=
        htrim slave hslave data hpolls hpromised.2.1
      rw [hlist, hmem] at halone
      refine ⟨trimSyncSlave slave, List.mem_map_of_mem hslave,
        (trimSyncSlave_polls slave data).mpr hpolls, ?_⟩
      rw [htrimmed, heq]
      obtain ⟨ext, hext, hextHigh, hextStart⟩ := (trimExtList_covers_high hfits hfirst hrest _).mpr
        ⟨alone, halone, ⟨hreach, fun other h => hothers other (by rw [hlist, hmem]; exact h)⟩, hle⟩
      exact ⟨ext, hext, hextStart, hextHigh⟩

/-- Of the registers 65534 and 65535 only the first is polled when each is a variable. -/
theorem creatSyncSlaveLink_drops_last : ¬ ∀ vars, PollCoverage vars := by
  intro h
  let first : ExtData := { xIo := { param := { modbus := { usExtAddr := 65534 } } } }
  let last : ExtData := { xIo := { param := { modbus := { usExtAddr := 65535 } } } }
  have hplan : creatSyncSlaveLink [first, last] =
    [⟨0, 0, 0, .modbus 3 0 0, [.modbus ⟨65534, 0, 1⟩]⟩] := by decide
  have hpromised : PollPromised last := ⟨rfl, rfl, by decide⟩
  obtain ⟨slave, hslave, -, ext, hext, -, hstop⟩ := (h [first, last]).1 last (by simp) hpromised
  rw [hplan, List.mem_singleton] at hslave
  subst hslave
  obtain rfl : ext = ⟨65534, 0, 1⟩ := by simpa using hext
  exact absurd hstop (by decide)

end DasEdge.VarManage
