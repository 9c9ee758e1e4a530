import DasEdge.Library.FirstFit
import DasEdge.VarManage.PollCoverage
import DasEdge.VarManage.SyncPlanLinks

/-!
# Which variables share a slave node

A variable goes to the first slave node that the search finds, or to a new one. The search compares
all of a variable's key with the key that a node keeps of the variable it was made for, cut to eight
bits. So a variable whose key does not fit finds no node, not even one of its own, and other
variables may find the node that was made for it.
-/

namespace DasEdge.VarManage

open DasEdge.Library

/-- The search for a variable finds the node that is made for another one. -/
def joinsNodeOf (data other : ExtData) : Bool := findSyncSlaveNode data (addSyncSlaveNode other)

/-- The slave node that the search finds is of the variable's class. -/
theorem syncClass_of_find {data : ExtData} {slave : SyncSlave}
    (h : findSyncSlaveNode data slave = true) :
    slave.syncClass = data.syncClass := by
  have hdev : syncSlaveHasDev slave data = true → slave.syncClass = data.syncClass := by
    intro hdev
    simp only [syncSlaveHasDev, Bool.and_eq_true, decide_eq_true_eq] at hdev
    rw [SyncSlave.syncClass, ExtData.syncClass, hdev.1.1, hdev.1.2, hdev.2]
  rw [findSyncSlaveNode] at h
  cases hclass : data.syncClass with
  | self =>
    simp only [hclass, Bool.and_eq_true, decide_eq_true_eq] at h
    have hself : protoIsRtuSelf data.xIo.usDevType.toNat data.xIo.usDevNum.toNat = true := by
      by_contra hnot
      simp only [ExtData.syncClass, syncClass, if_neg hnot] at hclass
      grind
    rw [SyncSlave.syncClass, syncClass, h.1, h.2, if_pos hself]
  | selfMid =>
    simp only [hclass, decide_eq_true_eq] at h
    have hmid : protoIsRtuSelfMid data.xIo.usDevType.toNat = true := by
      by_contra hnot
      simp only [ExtData.syncClass, syncClass, if_neg hnot] at hclass
      grind
    have hself : ¬ protoIsRtuSelf data.xIo.usDevType.toNat slave.devNum.toNat = true := by
      simp only [protoIsRtuSelfMid, decide_eq_true_eq] at hmid
      simp [protoIsRtuSelf, hmid]
    rw [SyncSlave.syncClass, syncClass, h, if_neg hself, if_pos hmid]
  | modbus =>
    simp only [hclass] at h
    rw [← hclass]
    cases hparam : slave.param with
    | modbus op slaveAddr faAddr =>
      simp only [hparam, Bool.and_eq_true] at h
      exact hdev h.2
    | _ => simp [hparam] at h
  | none => simp [hclass] at h
  | _ =>
    simp only [hclass, Bool.and_eq_true] at h
    rw [← hclass]
    first | exact hdev h.2 | exact hdev h

/-- Two variables that find one slave node find the same nodes among those that one of them finds. -/
theorem find_of_find {a b : ExtData} {slave slave' : SyncSlave} (ha : findSyncSlaveNode a slave = true)
    (ha' : findSyncSlaveNode a slave' = true) (hb : findSyncSlaveNode b slave = true) :
    findSyncSlaveNode b slave' = true := by
  have hclass : b.syncClass = a.syncClass := (syncClass_of_find hb).symm.trans (syncClass_of_find ha)
  rw [findSyncSlaveNode] at ha ha' hb ⊢
  rw [hclass] at hb ⊢
  cases hcls : a.syncClass with
  | modbus =>
    simp only [hcls] at ha ha' hb ⊢
    cases hparam : slave.param with
    | modbus op slaveAddr faAddr =>
      cases hparam' : slave'.param with
      | modbus op' slaveAddr' faAddr' =>
        simp only [hparam, hparam', syncSlaveHasDev, Bool.and_eq_true, decide_eq_true_eq] at ha ha' hb ⊢
        grind
      | _ => simp [hparam'] at ha'
    | _ => simp [hparam] at ha
  | none => simp [hcls] at ha
  | _ =>
    simp only [hcls, syncSlaveHasDev, Bool.and_eq_true, decide_eq_true_eq] at ha ha' hb ⊢
    grind

/-- A field that equals one of eight bits keeps its value in eight bits. -/
theorem toUInt8_eq_of_toNat {a : UInt8} {b : UInt16} (h : a.toNat = b.toNat) : b.toUInt8 = a := by
  have hlt := a.toNat_lt
  rw [← UInt8.toNat_inj, UInt16.toNat_toUInt8, ← h]
  exact Nat.mod_eq_of_lt hlt

/-- So does a signed field. -/
theorem toInt8_eq_of_toInt {a : Int8} {b : Int32} (h : a.toInt = b.toInt) : b.toInt8 = a := by
  have hle := a.toInt_lt
  have hge := a.le_toInt
  rw [← Int8.toInt_inj, Int32.toInt_toInt8, ← h]
  exact Int.bmod_eq_of_le (by omega) (by omega)

/-- The node made for a variable whose device and protocol fit. -/
theorem addSyncSlaveNode_of_hasDev {data : ExtData} {slave : SyncSlave}
    (h : syncSlaveHasDev slave data = true) :
    addSyncSlaveNode data = ⟨slave.devType, slave.devNum, slave.protoType,
      newSyncSlaveParam data data.syncClass,
      [newSyncExt data data.syncClass]⟩ := by
  simp only [syncSlaveHasDev, Bool.and_eq_true, decide_eq_true_eq] at h
  obtain ⟨⟨hdev, hnum⟩, hproto⟩ := h
  rw [addSyncSlaveNode, toUInt8_eq_of_toNat hdev, toUInt8_eq_of_toNat hnum,
    toUInt8_eq_of_toNat hproto, ExtData.syncClass,
    ← hdev, ← hnum, ← hproto]

/-- The slave node that is made for a variable is found in the search for it, when any is. -/
theorem joinsNodeOf_self {data : ExtData} {slave : SyncSlave}
    (h : findSyncSlaveNode data slave = true) :
    joinsNodeOf data data = true := by
  rw [joinsNodeOf]
  rw [findSyncSlaveNode] at h ⊢
  cases hcls : data.syncClass with
  | self =>
    simp only [hcls, Bool.and_eq_true, decide_eq_true_eq] at h ⊢
    rw [addSyncSlaveNode, toUInt8_eq_of_toNat h.1, toUInt8_eq_of_toNat h.2]
    exact h
  | selfMid =>
    simp only [hcls, decide_eq_true_eq] at h ⊢
    rw [addSyncSlaveNode, toUInt8_eq_of_toNat h]
    exact h
  | modbus =>
    simp only [hcls] at h ⊢
    cases hparam : slave.param with
    | modbus op slaveAddr faAddr =>
      simp only [hparam, Bool.and_eq_true, decide_eq_true_eq] at h
      obtain ⟨⟨⟨hop, hfa⟩, hslave⟩, hdev⟩ := h
      rw [addSyncSlaveNode_of_hasDev hdev, hcls]
      simp only [newSyncSlaveParam, toInt8_eq_of_toInt hfa, Bool.and_eq_true, decide_eq_true_eq]
      exact ⟨⟨⟨trivial, hfa⟩, trivial⟩, hdev⟩
    | _ => simp [hparam] at h
  | none => simp [hcls] at h
  | dust | smf =>
    simp only [hcls] at h ⊢
    rw [addSyncSlaveNode_of_hasDev h]
    exact h
  | _ =>
    simp only [hcls, Bool.and_eq_true, decide_eq_true_eq] at h ⊢
    rw [addSyncSlaveNode_of_hasDev h.2, hcls]
    exact ⟨rfl, h.2⟩

/-- Variables as items and slave nodes as bins. -/
def syncFirstFit : FirstFit ExtData SyncSlave := ⟨findSyncSlaveNode, addSyncSlaveNode, addExtToSlave⟩

/-- A variable is put into a slave node as an item into a bin. -/
theorem addSyncExtNode_eq_put (data : ExtData) (plan : List SyncSlave) :
    addSyncExtNode data plan = syncFirstFit.put data plan := by
  induction plan with
  | nil => rfl
  | cons slave plan ih =>
    rw [addSyncExtNode, FirstFit.put, ih]
    rfl

/-- The search for a slave node does not read its ext nodes. -/
theorem findSyncSlaveNode_addExtToSlave (a b : ExtData) (slave : SyncSlave) :
    findSyncSlaveNode b (addExtToSlave a slave) = findSyncSlaveNode b slave := by
  rw [addExtToSlave]
  split <;> rfl

/-- Variables and slave nodes go together by keys. -/
theorem syncFirstFit_keyed : syncFirstFit.Keyed where
  fits_add := findSyncSlaveNode_addExtToSlave
  fits_make _ _ h := joinsNodeOf_self h
  fits_of_fits _ _ _ _ ha ha' hb := find_of_find ha ha' hb

/-- The variables that the loop of `__creat_sync_slave_link` does not skip. -/
def enabledVars (vars : List ExtData) : List ExtData := vars.filter (·.bEnable)

/-- The plan holds the enabled variables, each in its bin. -/
theorem addedSyncSlaves_eq_bins (vars : List ExtData) :
    addedSyncSlaves vars = syncFirstFit.bins (enabledVars vars) := by
  rw [addedSyncSlaves, FirstFit.bins, enabledVars, List.foldl_filter]
  simp only [addSyncExtNode_eq_put]

/-- The number of the slave node that `__add_sync_ext_node` puts a variable into, behind others. -/
def slaveIndex (before : List ExtData) (data : ExtData) : ℕ :=
  (before.foldl (fun plan other => addSyncExtNode other plan) []).findIdx (findSyncSlaveNode data)

/-- It is the number of the bin. -/
theorem slaveIndex_eq (before : List ExtData) (data : ExtData) :
    slaveIndex before data = syncFirstFit.index before data := by
  simp only [slaveIndex, addSyncExtNode_eq_put]
  rfl

/-- An ext node may stand before another one: its address is not greater, and they are not for the
same registers. -/
def ExtInOrder (x y : SyncExt) : Prop := x.addr ≤ y.addr ∧ ¬ (x.range.isSome ∧ x.range = y.range)

/-- Two variables agree in device type and number, protocol, op code, slave address and `nSyncFAddr`. -/
def SameGroup (a b : ExtData) : Prop :=
  a.xIo.usDevType = b.xIo.usDevType ∧ a.xIo.usDevNum = b.xIo.usDevNum ∧
    a.xIo.usProtoType = b.xIo.usProtoType ∧
    a.xIo.param.modbus.btOpCode = b.xIo.param.modbus.btOpCode ∧
    a.xIo.param.modbus.btSlaveAddr = b.xIo.param.modbus.btSlaveAddr ∧
    a.xIo.param.modbus.nSyncFAddr = b.xIo.param.modbus.nSyncFAddr

/-- The plan is built, with slave nodes that hold the variables of one group each, and whose ext
nodes are linked both ways in ascending order and without repetition. -/
def PollGrouped (brk : ℕ) (vars : List ExtData) : Prop :=
  ∃ plan, addedSyncPlan brk vars = some plan ∧
    (∀ pre a mid b post, enabledVars vars = pre ++ a :: (mid ++ b :: post) → a.syncClass = .modbus →
      b.syncClass = .modbus →
      (slaveIndex pre a = slaveIndex (pre ++ a :: mid) b ↔ SameGroup a b)) ∧
    ∀ cell ∈ plan.slaves, ∃ nodes, LinkedList plan.exts cell.extList nodes ∧
      (nodes.map Prod.snd).Pairwise ExtInOrder

/-- The device number and `nSyncFAddr` fit the eight bits that a slave node has for them. -/
def KeyFits (data : ExtData) : Prop :=
  data.xIo.usDevNum.toNat < 256 ∧ -128 ≤ data.xIo.param.modbus.nSyncFAddr.toInt ∧
    data.xIo.param.modbus.nSyncFAddr.toInt ≤ 127

/-- The classes whose new ext nodes are put at the end. -/
def SyncClass.Appends (cls : SyncClass) : Prop := cls ≠ .modbus ∧ cls ≠ .dh ∧ cls ≠ .none

/-- Modbus variables of one group have keys that fit; no slave node that others find first is made
for a Modbus variable whose key does not fit; and the variables that share a slave node of another
class are in order. -/
structure GroupingSafe (vars : List ExtData) : Prop where
  fits : ∀ pre a mid b post, vars = pre ++ a :: (mid ++ b :: post) → a.syncClass = .modbus →
    b.syncClass = .modbus →
    SameGroup a b → KeyFits a
  first : ∀ pre a mid b post, vars = pre ++ a :: (mid ++ b :: post) → a.syncClass = .modbus →
    b.syncClass = .modbus →
    joinsNodeOf b a = true → ¬ KeyFits a → ∃ m ∈ pre, joinsNodeOf b m = true
  ordered : ∀ pre a mid b post, vars = pre ++ a :: (mid ++ b :: post) → b.syncClass.Appends →
    joinsNodeOf b a = true →
    (joinsNodeOf a a = true ∨ ∀ m ∈ pre, joinsNodeOf b m ≠ true) →
    ExtInOrder (newSyncExt a b.syncClass) (newSyncExt b b.syncClass)

/-- The node made for a Modbus variable whose key fits has that key. -/
theorem addSyncSlaveNode_of_keyFits {data : ExtData} (hmodbus : data.syncClass = .modbus)
    (hfits : KeyFits data) :
    ∃ slave, addSyncSlaveNode data = slave ∧ slave.devType.toNat = data.xIo.usDevType.toNat ∧
      slave.devNum.toNat = data.xIo.usDevNum.toNat ∧
      slave.protoType.toNat = data.xIo.usProtoType.toNat ∧
      ∃ faAddr : Int8, faAddr.toInt = data.xIo.param.modbus.nSyncFAddr.toInt ∧
        slave.param = .modbus data.xIo.param.modbus.btOpCode data.xIo.param.modbus.btSlaveAddr
        faAddr := by
  obtain ⟨hnum, hlow, hhigh⟩ := hfits
  have hbound := protoIsModbus_bound (syncClass_modbus.mp hmodbus)
  have hdev' : data.xIo.usDevType.toUInt8.toNat = data.xIo.usDevType.toNat := by
    rw [UInt16.toNat_toUInt8]
    omega
  have hnum' : data.xIo.usDevNum.toUInt8.toNat = data.xIo.usDevNum.toNat := by
    rw [UInt16.toNat_toUInt8]
    omega
  have hproto' : data.xIo.usProtoType.toUInt8.toNat = data.xIo.usProtoType.toNat := by
    rw [UInt16.toNat_toUInt8]
    omega
  have hfa : data.xIo.param.modbus.nSyncFAddr.toInt8.toInt =
      data.xIo.param.modbus.nSyncFAddr.toInt := by
    rw [Int32.toInt_toInt8]
    exact Int.bmod_eq_of_le (by omega) (by omega)
  have hclass : syncClass data.xIo.usDevType.toNat data.xIo.usDevNum.toNat
    data.xIo.usProtoType.toNat = .modbus := hmodbus
  refine ⟨_, rfl, hdev', hnum', hproto', _, hfa, ?_⟩
  simp only [addSyncSlaveNode, hdev', hnum', hproto', hclass]
  rfl

/-- A Modbus variable finds the node made for one whose key fits exactly when they are of one group. -/
theorem joinsNodeOf_iff {a b : ExtData} (ha : a.syncClass = .modbus) (hb : b.syncClass = .modbus)
    (hfits : KeyFits a) :
    joinsNodeOf b a = true ↔ SameGroup a b := by
  obtain ⟨slave, hslave, hdev, hnum, hproto, faAddr, hfa, hparam⟩ :=
    addSyncSlaveNode_of_keyFits ha hfits
  rw [joinsNodeOf, hslave, findSyncSlaveNode, hb]
  simp only [hparam, syncSlaveHasDev, hdev, hnum, hproto, hfa, Bool.and_eq_true, decide_eq_true_eq,
    UInt16.toNat_inj,
    Int32.toInt_inj, SameGroup]
  tauto

/-- A Modbus variable that finds a node has a key that fits. -/
theorem keyFits_of_find {data : ExtData} {slave : SyncSlave} (hmodbus : data.syncClass = .modbus)
    (h : findSyncSlaveNode data slave = true) : KeyFits data := by
  rw [findSyncSlaveNode, hmodbus] at h
  cases hparam : slave.param with
  | modbus op slaveAddr faAddr =>
    simp only [hparam, syncSlaveHasDev, Bool.and_eq_true, decide_eq_true_eq] at h
    obtain ⟨⟨⟨-, hfa⟩, -⟩, ⟨-, hnum⟩, -⟩ := h
    have hlow := faAddr.le_toInt
    have hhigh := faAddr.toInt_lt
    have hlt := slave.devNum.toNat_lt
    refine ⟨by omega, by omega, by omega⟩
  | _ => simp [hparam] at h

/-- A Modbus variable finds the node made for it exactly when its key fits. -/
theorem joinsNodeOf_self_iff {a : ExtData} (ha : a.syncClass = .modbus) : joinsNodeOf a a = true ↔
    KeyFits a :=
  ⟨keyFits_of_find ha, fun hfits => (joinsNodeOf_iff ha ha hfits).mpr ⟨rfl, rfl, rfl, rfl, rfl, rfl⟩⟩

/-- The grouping of Modbus variables, on the list of variables. -/
theorem grouped_iff (vars : List ExtData) :
    (∀ pre a mid b post, vars = pre ++ a :: (mid ++ b :: post) → a.syncClass = .modbus →
      b.syncClass = .modbus →
      (slaveIndex pre a = slaveIndex (pre ++ a :: mid) b ↔ SameGroup a b)) ↔
    (∀ pre a mid b post, vars = pre ++ a :: (mid ++ b :: post) → a.syncClass = .modbus →
      b.syncClass = .modbus →
      SameGroup a b → KeyFits a) ∧
    ∀ pre a mid b post, vars = pre ++ a :: (mid ++ b :: post) → a.syncClass = .modbus →
      b.syncClass = .modbus →
      joinsNodeOf b a = true → ¬ KeyFits a → ∃ m ∈ pre, joinsNodeOf b m = true := by
  have hshares : ∀ pre a mid b, slaveIndex pre a = slaveIndex (pre ++ a :: mid) b ↔
      joinsNodeOf b a = true ∧ (joinsNodeOf a a = true ∨ ∀ m ∈ pre, joinsNodeOf b m ≠ true) := by
    intro pre a mid b
    rw [slaveIndex_eq, slaveIndex_eq]
    exact syncFirstFit.index_eq_iff syncFirstFit_keyed pre mid a b
  have hsame : ∀ a b, SameGroup a b → (KeyFits a ↔ KeyFits b) := by
    rintro a b ⟨-, hnum, -, -, -, hfa⟩
    rw [KeyFits, KeyFits, hnum, hfa]
  constructor
  · intro hgroup
    refine ⟨fun pre a mid b post heq ha hb hab => ?_, fun pre a mid b post heq ha hb hjoins hwide => ?_⟩
    · have hjoins := ((hshares pre a mid b).mp ((hgroup pre a mid b post heq ha hb).mpr hab)).1
      exact (hsame a b hab).mpr (keyFits_of_find hb hjoins)
    · by_contra hnone
      push Not at hnone
      have hab :=
        (hgroup pre a mid b post heq ha hb).mp ((hshares pre a mid b).mpr ⟨hjoins, .inr hnone⟩)
      exact hwide ((hsame a b hab).mpr (keyFits_of_find hb hjoins))
  · rintro ⟨hfits, hfirst⟩ pre a mid b post heq ha hb
    rw [hshares]
    constructor
    · rintro ⟨hjoins, hown⟩
      refine (joinsNodeOf_iff ha hb ?_).mp hjoins
      rcases hown with hself | hnone
      · exact (joinsNodeOf_self_iff ha).mp hself
      · by_contra hwide
        obtain ⟨m, hm, hjoinsM⟩ := hfirst pre a mid b post heq ha hb hjoins hwide
        exact hnone m hm hjoinsM
    · intro hab
      have ha' := hfits pre a mid b post heq ha hb hab
      exact ⟨(joinsNodeOf_iff ha hb ha').mpr hab, .inl ((joinsNodeOf_self_iff ha).mpr ha')⟩

/-- Modbus nodes are in order when the first is not above the second and they differ. -/
theorem modbus_inOrder {a b : SyncExtModbus} : ExtInOrder (.modbus a) (.modbus b) ↔
    a.addr ≤ b.addr ∧ a ≠ b := by
  cases a
  cases b
  simp [ExtInOrder, SyncExt.addr, SyncExt.range]

/-- Inserting a Modbus node keeps the nodes in order. -/
theorem insertSyncExt_inOrder (new : SyncExtModbus) (exts : List SyncExtModbus)
    (h : exts.Pairwise fun a b => a.addr ≤ b.addr ∧ a ≠ b) :
    ∃ exts' : List SyncExtModbus, insertSyncExt new (exts.map .modbus) = exts'.map .modbus ∧
      (exts'.Pairwise fun a b => a.addr ≤ b.addr ∧ a ≠ b) ∧ ∀ ext ∈ exts', ext = new ∨ ext ∈ exts := by
  induction exts with
  | nil => exact ⟨[new], rfl, List.pairwise_singleton _ _, by simp⟩
  | cons ext exts ih =>
    obtain ⟨hhead, htail⟩ := List.pairwise_cons.mp h
    rw [List.map_cons, insertSyncExt]
    by_cases hlt : new.addr < ext.addr
    · rw [if_pos hlt]
      refine ⟨new :: ext :: exts, rfl, List.pairwise_cons.mpr ⟨fun other hother => ?_, h⟩, by simp⟩
      have hle : ext.addr ≤ other.addr := by
        rcases List.mem_cons.mp hother with rfl | hother
        · exact UInt16.le_refl _
        · exact (hhead other hother).1
      have hbelow := UInt16.lt_of_lt_of_le hlt hle
      refine ⟨UInt16.le_of_lt hbelow, ?_⟩
      rintro rfl
      exact UInt16.lt_irrefl _ hbelow
    · rw [if_neg hlt]
      by_cases hsame : (new.addr = ext.addr && new.ofs = ext.ofs && new.size = ext.size) = true
      · rw [if_pos hsame]
        exact ⟨ext :: exts, rfl, h, fun _ hmem => .inr hmem⟩
      · rw [if_neg hsame]
        obtain ⟨exts', hinsert, hpairs, hmem⟩ := ih htail
        refine ⟨ext :: exts', by rw [hinsert]; rfl,
          List.pairwise_cons.mpr ⟨fun other hother => ?_, hpairs⟩, ?_⟩
        · rcases hmem other hother with rfl | hother
          · refine ⟨UInt16.not_lt.mp hlt, ?_⟩
            rintro rfl
            exact hsame (by simp)
          · exact hhead other hother
        · intro other hother
          rcases List.mem_cons.mp hother with rfl | hother
          · exact .inr List.mem_cons_self
          · exact (hmem other hother).imp_right (List.mem_cons_of_mem _)

/-- The fields of a slave node other than its ext nodes stay, and so does its class. -/
theorem addExtToSlave_syncClass (data : ExtData) (slave : SyncSlave) :
    (addExtToSlave data slave).syncClass = slave.syncClass := by
  rw [addExtToSlave]
  split <;> rfl

/-- The ext nodes of a Modbus slave node are in order. -/
theorem foldl_modbus_inOrder (datas : List ExtData) {slave : SyncSlave}
    (hclass : slave.syncClass = .modbus)
    {exts : List SyncExtModbus} (hexts : slave.extList = exts.map .modbus)
    (h : exts.Pairwise fun a b => a.addr ≤ b.addr ∧ a ≠ b) :
    (datas.foldl (fun slave data => addExtToSlave data slave) slave).extList.Pairwise ExtInOrder := by
  induction datas generalizing slave exts with
  | nil =>
    rw [List.foldl_nil, hexts, List.pairwise_map]
    exact h.imp fun hab => modbus_inOrder.mpr hab
  | cons data datas ih =>
    obtain ⟨exts', hinsert, hpairs, -⟩ := insertSyncExt_inOrder (modbusExt data) exts h
    refine ih ((addExtToSlave_syncClass data slave).trans hclass) ?_ hpairs
    simp only [addExtToSlave, hclass, ← hinsert, hexts]

/-- The ext nodes of a slave node of another class are those of its variables in their order. -/
theorem foldl_append_extList (datas : List ExtData) {slave : SyncSlave} {cls : SyncClass}
    (hclass : slave.syncClass = cls)
    (happends : cls.Appends) :
    (datas.foldl (fun slave data => addExtToSlave data slave) slave).extList =
      slave.extList ++ datas.map fun data => newSyncExt data cls := by
  induction datas generalizing slave with
  | nil => simp
  | cons data datas ih =>
    have hadd : (addExtToSlave data slave).extList = slave.extList ++ [newSyncExt data cls] := by
      obtain ⟨hmodbus, hdh, -⟩ := happends
      rw [addExtToSlave]
      split
      · next h => exact absurd (hclass.symm.trans h) hmodbus
      · next h => exact absurd (hclass.symm.trans h) hdh
      · rw [hclass]
    rw [List.foldl_cons, ih ((addExtToSlave_syncClass data slave).trans hclass), hadd,
      List.map_cons, List.append_assoc]
    rfl

/-- A slave node for `dh` keeps one ext node. -/
theorem foldl_dh_extList (datas : List ExtData) {slave : SyncSlave} (hclass : slave.syncClass = .dh) :
    datas.foldl (fun slave data => addExtToSlave data slave) slave = slave := by
  induction datas with
  | nil => rfl
  | cons data datas ih =>
    have hadd : addExtToSlave data slave = slave := by rw [addExtToSlave, hclass]
    rw [List.foldl_cons, hadd, ih]

/-- Two variables of which one is before the other may have their ext nodes in one slave node. -/
def VarInOrder (a b : ExtData) : Prop :=
  b.syncClass.Appends → ExtInOrder (newSyncExt a b.syncClass) (newSyncExt b b.syncClass)

/-- The order of the ext nodes of a slave node, said of its variables. -/
theorem bin_inOrder_iff {a : ExtData} {rest : List ExtData}
    (hrest : ∀ b ∈ rest, joinsNodeOf b a = true) :
    (rest.foldl (fun slave data => addExtToSlave data slave) (addSyncSlaveNode a)).extList.Pairwise
      ExtInOrder ↔
      (a :: rest).Pairwise VarInOrder := by
  have hclass : ∀ b ∈ rest, b.syncClass = (addSyncSlaveNode a).syncClass :=
    fun b hb => (syncClass_of_find (hrest b hb)).symm
  have hone : (addSyncSlaveNode a).extList = [newSyncExt a (addSyncSlaveNode a).syncClass] := rfl
  by_cases happends : (addSyncSlaveNode a).syncClass.Appends
  · have hmap : (rest.foldl (fun slave data => addExtToSlave data slave) (addSyncSlaveNode a)).extList =
        (a :: rest).map fun data => newSyncExt data (addSyncSlaveNode a).syncClass := by
      rw [foldl_append_extList rest rfl happends, hone]
      rfl
    have hpair : ∀ c, ∀ d ∈ rest, VarInOrder c d ↔
        ExtInOrder (newSyncExt c (addSyncSlaveNode a).syncClass)
        (newSyncExt d (addSyncSlaveNode a).syncClass) := by
      intro c d hd
      rw [VarInOrder, hclass d hd]
      exact ⟨fun h => h happends, fun h _ => h⟩
    rw [hmap, List.pairwise_map, List.pairwise_cons, List.pairwise_cons]
    refine and_congr (forall₂_congr fun d hd => (hpair a d hd).symm)
      (List.Pairwise.iff_of_mem fun _ hd => ?_)
    exact (hpair _ _ hd).symm
  · -- in the other classes the ext nodes are in order, and nothing is asked of the variables
    have hright : (a :: rest).Pairwise VarInOrder := by
      have hvacuous : ∀ c, ∀ d ∈ rest, VarInOrder c d :=
        fun c d hd h => absurd (hclass d hd ▸ h) happends
      exact List.pairwise_cons.mpr ⟨hvacuous a, List.pairwise_of_forall_mem_list fun c _ d hd =>
        hvacuous c d hd⟩
    refine iff_of_true ?_ hright
    cases hcls : (addSyncSlaveNode a).syncClass with
    | modbus =>
      have hexts : (addSyncSlaveNode a).extList = [modbusExt a].map .modbus := by
        rw [hone, hcls]
        rfl
      exact foldl_modbus_inOrder rest hcls hexts (List.pairwise_singleton _ _)
    | dh =>
      rw [foldl_dh_extList rest hcls, hone]
      exact List.pairwise_singleton _ _
    | none =>
      have hnil : rest = [] := by
        refine List.eq_nil_iff_forall_not_mem.mpr fun b hb => ?_
        have hfind := hrest b hb
        rw [joinsNodeOf, findSyncSlaveNode, hclass b hb, hcls] at hfind
        cases hfind
      rw [hnil, List.foldl_nil, hone]
      exact List.pairwise_singleton _ _
    | _ => exact absurd ⟨by simp [hcls], by simp [hcls], by simp [hcls]⟩ happends

/-- The order of all ext nodes, on the list of variables. -/
theorem inOrder_iff (vars : List ExtData) :
    (∀ slave ∈ syncFirstFit.bins vars, slave.extList.Pairwise ExtInOrder) ↔
      ∀ pre a mid b post, vars = pre ++ a :: (mid ++ b :: post) → b.syncClass.Appends →
        joinsNodeOf b a = true →
        (joinsNodeOf a a = true ∨ ∀ m ∈ pre, joinsNodeOf b m ≠ true) →
        ExtInOrder (newSyncExt a b.syncClass) (newSyncExt b b.syncClass) := by
  have hbins : (∀ slave ∈ syncFirstFit.bins vars, slave.extList.Pairwise ExtInOrder) ↔
      ∀ k, (syncFirstFit.members k [] vars).Pairwise VarInOrder := by
    rw [syncFirstFit.forall_mem_bins]
    refine forall_congr' fun k => ?_
    cases hmembers : syncFirstFit.members k [] vars with
    | nil => simp
    | cons a rest =>
      have hfits := syncFirstFit.fits_of_members syncFirstFit_keyed hmembers
      rw [← bin_inOrder_iff hfits]
      constructor
      · exact fun h => h a rest rfl
      · intro h a' rest' heq
        obtain ⟨rfl, rfl⟩ := List.cons.inj heq
        exact h
  rw [hbins, syncFirstFit.pairwise_members syncFirstFit_keyed]
  constructor
  · intro hall pre a mid b post heq happends hjoins hown
    exact hall pre a mid b post heq ⟨hjoins, hown⟩ happends
  · intro hall pre a mid b post heq hshares happends
    exact hall pre a mid b post heq happends hshares.1 hshares.2

/-- The poll plan groups the variables exactly when the keys of Modbus variables fit where it
matters and the variables of other devices are listed in the order of their addresses. -/
theorem pollGrouped_iff (brk : ℕ) (vars : List ExtData) :
    PollGrouped brk vars ↔ GroupingSafe (enabledVars vars) := by
  obtain ⟨plan, lists, hadded, hrep, hslaves⟩ := addedSyncPlan_rep brk vars
  have hordered : (∀ cell ∈ plan.slaves, ∃ nodes, LinkedList plan.exts cell.extList nodes ∧
      (nodes.map Prod.snd).Pairwise ExtInOrder) ↔
      ∀ slave ∈ syncFirstFit.bins (enabledVars vars), slave.extList.Pairwise ExtInOrder := by
    rw [← addedSyncSlaves_eq_bins, ← hslaves, hrep.slaves, List.forall_mem_map, List.forall_mem_map]
    refine forall₂_congr fun x hx => ⟨?_, fun h => ⟨x.2, hrep.links.linked x hx, h⟩⟩
    rintro ⟨nodes, hlinked, hpairs⟩
    obtain ⟨last, hseg⟩ := hlinked.linked
    obtain ⟨last', hseg'⟩ := (hrep.links.linked x hx).linked
    obtain rfl := linkSeg_unique hseg hseg'
    exact hpairs
  constructor
  · rintro ⟨plan', hadded', hgroup, hlists⟩
    obtain rfl := Option.some.inj (hadded.symm.trans hadded')
    obtain ⟨hfits, hfirst⟩ := (grouped_iff _).mp hgroup
    exact ⟨hfits, hfirst, (inOrder_iff _).mp (hordered.mp hlists)⟩
  · rintro ⟨hfits, hfirst, hinOrder⟩
    exact ⟨plan, hadded, (grouped_iff _).mpr ⟨hfits, hfirst⟩,
      hordered.mpr ((inOrder_iff _).mpr hinOrder)⟩

/-- Two variables with the same `nSyncFAddr` above 127 get a slave node each. -/
theorem not_pollGrouped_wide : ¬ ∀ brk vars, PollGrouped brk vars := by
  intro h
  obtain ⟨plan, -, hgroup, -⟩ := h 1 [{ xIo := { param := { modbus := { nSyncFAddr := 200 } } } },
    { xIo := { param := { modbus := { nSyncFAddr := 200 } } } }]
  have hiff := hgroup [] _ [] _ [] rfl rfl rfl
  have hsame := hiff.mpr ⟨rfl, rfl, rfl, rfl, rfl, rfl⟩
  revert hsame
  decide

end DasEdge.VarManage
