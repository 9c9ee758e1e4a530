import DasEdge.VarManage.SyncPlan
import DasEdge.VarManage.SyncPlanLinks
import Mathlib.Data.List.TakeWhile

/-!
# The polling task meets every pair

From pointers that are not in the plan the calls meet the pairs of slave and ext nodes one after the
other and then return `VAR_FALSE`. The pointers that are left by then are not in the plan either,
since the slave node is null.
-/

namespace DasEdge.VarManage

open DasEdge.Library

/-- A slave node with one of its ext nodes. -/
abbrev SyncPair := SyncSlaveCell × ℕ × SyncExt

/-- The pointers to a pair. -/
def SyncPair.cursor (pair : SyncPair) : SyncCursor := (some pair.1.addr, some pair.2.1)

/-- The pairs in the order of the plan. -/
def planPairs (plan : SyncPlan) : List SyncPair :=
  plan.slaves.flatMap fun cell => (linkedNodes plan.exts (plan.brk + 1) cell.extList).map
    fun node => (cell, node)

/-- The pairs of slave nodes with the ext nodes that they link. -/
def pairsOf (lists : List SyncCellList) : List SyncPair :=
  lists.flatMap fun x => x.2.map fun node => (x.1, node)

@[simp] theorem pairsOf_cons (x : SyncCellList) (lists : List SyncCellList) :
    pairsOf (x :: lists) = x.2.map (fun node => (x.1, node)) ++ pairsOf lists := rfl

/-- The pairs are those of the nodes. -/
theorem planPairs_eq {plan : SyncPlan} {lists : List SyncCellList} (h : PlanRep plan lists) :
    planPairs plan = pairsOf lists := by
  rw [planPairs, h.slaves, List.flatMap_map, pairsOf]
  refine List.flatMap_congr fun x hx => ?_
  have hbelow : ∀ p ∈ linkAddrs x.2, p < plan.brk :=
    fun p hp => h.links.below p (List.mem_flatMap.mpr ⟨x, hx, hp⟩)
  have hlength := length_nodes_le (h.links.linked x hx) hbelow
  obtain ⟨last, hseg⟩ := (h.links.linked x hx).linked
  rw [linkedNodes_eq (hlength.trans (Nat.le_succ _)) hseg]

/-- Where a pair stands: its slave node, its ext node, and the pairs behind it. -/
theorem pairsOf_split {lists : List SyncCellList} {done rest : List SyncPair} {pair : SyncPair}
    (h : pairsOf lists = done ++ pair :: rest) :
    ∃ before x after front back, lists = before ++ x :: after ∧ x.1 = pair.1 ∧
      x.2 = front ++ pair.2 :: back ∧
      rest = back.map (fun node => (x.1, node)) ++ pairsOf after := by
  induction lists generalizing done with
  | nil => simp [pairsOf] at h
  | cons x lists ih =>
    rw [pairsOf_cons, List.append_eq_append_iff] at h
    rcases h with ⟨done', rfl, hrest⟩ | ⟨tail, hnodes, htail⟩
    · obtain ⟨before, y, after, front, back, rfl, hcell, hnodes, hback⟩ := ih hrest
      exact ⟨x :: before, y, after, front, back, rfl, hcell, hnodes, hback⟩
    · cases tail with
      | nil =>
        obtain ⟨before, y, after, front, back, rfl, hcell, hnodes, hback⟩ :=
          ih (show pairsOf lists = [] ++ pair :: rest from htail.symm)
        exact ⟨x :: before, y, after, front, back, rfl, hcell, hnodes, hback⟩
      | cons pair' tail =>
        obtain ⟨rfl, rfl⟩ := List.cons.inj htail
        obtain ⟨front, back', hx, -, hback'⟩ := List.map_eq_append_iff.mp hnodes
        obtain ⟨node, back, rfl, hnode, rfl⟩ := List.map_eq_cons_iff.mp hback'
        refine ⟨[], x, lists, front, back, rfl, ?_, ?_, rfl⟩
        · rw [← hnode]
        · rw [hx, ← hnode]

/-- The slave nodes from one of them on. -/
theorem slavesFrom_eq {plan : SyncPlan} {before after : List SyncCellList} {x : SyncCellList}
    (h : PlanRep plan (before ++ x :: after)) :
    slavesFrom plan x.1.addr = x.1 :: after.map Prod.fst := by
  have hcells := h.links.cells
  rw [List.map_append, List.map_cons, List.nodup_append] at hcells
  have hbefore : ∀ cell ∈ before.map Prod.fst, decide (cell.addr ≠ x.1.addr) = true := by
    refine List.forall_mem_map.mpr fun y hy => decide_eq_true fun heq => ?_
    exact hcells.2.2 y.1.addr (List.mem_map_of_mem hy) x.1.addr List.mem_cons_self heq
  rw [slavesFrom, h.slaves, List.map_append, List.map_cons, List.dropWhile_append_of_pos hbefore,
    List.dropWhile_cons_of_neg (by simp)]

/-- The search for an ext node. -/
theorem existsExt_eq {exts : LinkHeap SyncExt} {ext fuel : ℕ} {prev start last : Option ℕ}
    {xs : List (ℕ × SyncExt)}
    (hfuel : xs.length < fuel) (hseg : LinkSeg exts prev start xs last none) :
    existsExt exts ext fuel start = some (decide (ext ∈ linkAddrs xs)) := by
  induction xs generalizing prev start fuel with
  | nil =>
    obtain ⟨fuel, rfl⟩ : ∃ k, fuel = k + 1 := ⟨fuel - 1, by omega⟩
    obtain ⟨-, rfl⟩ := hseg
    rfl
  | cons x xs ih =>
    obtain ⟨p, d⟩ := x
    obtain ⟨fuel, rfl⟩ : ∃ k, fuel = k + 1 :=
      ⟨fuel - 1, by simp only [List.length_cons] at hfuel; omega⟩
    obtain ⟨rfl, next, hnode, hrest⟩ := hseg
    rw [existsExt]
    by_cases hext : ext = p
    · simp [hext]
    · simp only [if_neg hext, hnode, Option.bind_some, ih (by simpa using hfuel) hrest]
      simp [hext]

/-- The pointers to pairs. -/
theorem mem_cursors {lists : List SyncCellList} {slave ext : ℕ} :
    (some slave, some ext) ∈ (pairsOf lists).map SyncPair.cursor ↔ ∃ x ∈ lists, x.1.addr = slave ∧
      ext ∈ linkAddrs x.2 := by
  simp only [List.mem_map, pairsOf, List.mem_flatMap, linkAddrs, SyncPair.cursor, Prod.mk.injEq,
    Option.some.injEq]
  constructor
  · rintro ⟨pair, ⟨x, hx, node, hnode, rfl⟩, hslave, hext⟩
    exact ⟨x, hx, hslave, node, hnode, hext⟩
  · rintro ⟨x, hx, hslave, node, hnode, hext⟩
    exact ⟨(x.1, node), ⟨x, hx, node, hnode, rfl⟩, hslave, hext⟩

/-- The search for a pair. -/
theorem isexistSyncExt_eq {plan : SyncPlan} {lists : List SyncCellList} (h : PlanRep plan lists)
    (slave ext : ℕ) :
    isexistSyncExt plan slave ext =
      some (decide ((some slave, some ext) ∈ (pairsOf lists).map SyncPair.cursor)) := by
  rw [isexistSyncExt]
  by_cases hslave : ∃ x ∈ lists, x.1.addr = slave
  · obtain ⟨x, hx, rfl⟩ := hslave
    have hmem : ((some x.1.addr, some ext) ∈ (pairsOf lists).map SyncPair.cursor) ↔
        ext ∈ linkAddrs x.2 := by
      rw [mem_cursors]
      constructor
      · rintro ⟨y, hy, haddr, hext⟩
        rwa [List.inj_on_of_nodup_map h.links.cells hy hx haddr] at hext
      · exact fun hext => ⟨x, hx, rfl, hext⟩
    have hbelow : ∀ p ∈ linkAddrs x.2, p < plan.brk :=
      fun p hp => h.links.below p (List.mem_flatMap.mpr ⟨x, hx, hp⟩)
    have hlength := length_nodes_le (h.links.linked x hx) hbelow
    obtain ⟨last, hseg⟩ := (h.links.linked x hx).linked
    obtain ⟨before, after, rfl⟩ := List.append_of_mem hx
    simp only [slavesFrom_eq h, existsExt_eq (Nat.lt_succ_of_le hlength) hseg, hmem]
  · have hnone : slavesFrom plan slave = [] := by
      rw [slavesFrom, h.slaves, List.dropWhile_eq_nil_iff]
      refine List.forall_mem_map.mpr fun x hx => decide_eq_true fun heq => hslave ⟨x, hx, heq⟩
    have hmem : (some slave, some ext) ∉ (pairsOf lists).map SyncPair.cursor := by
      rw [mem_cursors]
      rintro ⟨x, hx, haddr, -⟩
      exact hslave ⟨x, hx, haddr⟩
    simp only [hnone, hmem, decide_false]

/-- The pointers to the first of some pairs, or those that are left behind the last pair. -/
def cursorAt (pairs : List SyncPair) (ext : Option ℕ) : SyncCursor :=
  match pairs with
  | pair :: _ => pair.cursor
  | [] => (none, ext)

/-- The first pair of slave nodes that all have ext nodes. -/
theorem firstOf_eq {exts : LinkHeap SyncExt} {lists : List SyncCellList}
    (hlinked : ∀ x ∈ lists, LinkedList exts x.1.extList x.2)
    (hne : ∀ x ∈ lists, x.2 ≠ []) (ext : Option ℕ) :
    firstOf (lists.map Prod.fst) ext = cursorAt (pairsOf lists) ext := by
  cases lists with
  | nil => rfl
  | cons x lists =>
    obtain ⟨node, nodes, hnodes⟩ := List.exists_cons_of_ne_nil (hne x List.mem_cons_self)
    have hstart := (hlinked x List.mem_cons_self).start_eq
    rw [hnodes, linkAddrs_cons, List.head?_cons] at hstart
    rw [pairsOf_cons, hnodes, List.map_cons, List.map_cons, firstOf, hstart]
    rfl

/-- From a pair the pointers move to the next one. -/
theorem moveCursor_pair {plan : SyncPlan} {lists : List SyncCellList} (h : PlanRep plan lists)
    (hne : ∀ x ∈ lists, x.2 ≠ [])
    {done rest : List SyncPair} {pair : SyncPair} (hpairs : pairsOf lists = done ++ pair :: rest) :
    moveCursor plan pair.cursor = some (cursorAt rest (some pair.2.1)) := by
  have hmem : (some pair.1.addr, some pair.2.1) ∈ (pairsOf lists).map SyncPair.cursor :=
    List.mem_map.mpr ⟨pair, by rw [hpairs]; simp, rfl⟩
  have hfound := isexistSyncExt_eq h pair.1.addr pair.2.1
  obtain ⟨before, x, after, front, back, rfl, hcell, hnodes, hback⟩ := pairsOf_split hpairs
  have hlinked := h.links.linked x (by simp)
  rw [hnodes] at hlinked
  have hnode := hlinked.node
  have hslaves := slavesFrom_eq h
  rw [hcell] at hslaves
  rw [SyncPair.cursor, moveCursor, hfound, decide_eq_true hmem]
  simp only [Option.bind_some, if_true, hnode, Option.map_some, hslaves, List.tail_cons]
  cases back with
  | cons node back =>
    rw [hback, hcell]
    rfl
  | nil =>
    rw [hback, List.map_nil, List.nil_append, linkAddrs_nil, List.head?_nil]
    have hafter : ∀ y ∈ after, y ∈ before ++ x :: after := fun y hy => by simp [hy]
    rw [firstOf_eq (fun y hy => h.links.linked y (hafter y hy)) (fun y hy => hne y (hafter y hy))]

/-- From elsewhere they move to the first one. -/
theorem moveCursor_other {plan : SyncPlan} {lists : List SyncCellList} (h : PlanRep plan lists)
    (hne : ∀ x ∈ lists, x.2 ≠ [])
    {cursor : SyncCursor} (hcursor : cursor ∉ (pairsOf lists).map SyncPair.cursor) :
    moveCursor plan cursor = some (cursorAt (pairsOf lists) none) := by
  have hfirst : firstOf plan.slaves none = cursorAt (pairsOf lists) none := by
    rw [h.slaves, firstOf_eq h.links.linked hne]
  match cursor with
  | (some slave, some ext) =>
    rw [moveCursor, isexistSyncExt_eq h, decide_eq_false hcursor, ← hfirst]
    rfl
  | (none, _) => rw [moveCursor, hfirst]; simp
  | (some _, none) => rw [moveCursor, hfirst]; simp

/-- A call that comes to a pair copies its fields. -/
theorem getNextSyncExtNode_pair {plan : SyncPlan} {lists : List SyncCellList}
    (h : PlanRep plan lists) {cursor : SyncCursor}
    {pair : SyncPair} (hmem : pair ∈ pairsOf lists)
    (hmove : moveCursor plan cursor = some pair.cursor) (node : SyncNode) :
    getNextSyncExtNode plan cursor node = some (true, pair.cursor,
      ⟨pair.1.devType, pair.1.devNum, pair.1.protoType, syncNodeParam node.param pair.1 pair.2.2⟩) := by
  obtain ⟨done, rest, hpairs⟩ := List.append_of_mem hmem
  obtain ⟨before, x, after, front, back, rfl, hcell, hnodes, -⟩ := pairsOf_split hpairs
  have hlinked := h.links.linked x (by simp)
  rw [hnodes] at hlinked
  have hnode := hlinked.node
  have hslaves := slavesFrom_eq h
  rw [hcell] at hslaves
  rw [getNextSyncExtNode, hmove, Option.bind_some]
  simp only [SyncPair.cursor, hslaves, List.head?_cons, Option.bind_some, hnode, Option.map_some]

/-- The member of the union that a slave node of a class reads in an ext node. -/
def SyncClass.HasExt : SyncClass → SyncExt → Prop
  | .self, .self _ | .selfMid, .self _ | .modbus, .modbus _ | .dlt645, .dlt645 _ _ | .mbus603,
    .mbus603 _ _ | .dust, .dust _ _
  | .smf, .smf _ _ | .obmodbus, .obmodbus _ _ _ | .dh, .dh _ _ | .none, .blank => True
  | _, _ => False

/-- The member of the union that is read in a slave node of a class. -/
def SyncClass.HasParam : SyncClass → SyncSlaveParam → Prop
  | .modbus, .modbus _ _ _ | .dlt645, .dlt645 _ | .mbus603, .mbus603 _ | .obmodbus,
    .obmodbus _ _ | .dh, .dh _ _ => True
  | .self, _ | .selfMid, _ | .dust, _ | .smf, _ | .none, _ => True
  | _, _ => False

/-- A slave node has ext nodes, and they and the node itself hold what is read in them. -/
structure SlaveTyped (slave : SyncSlave) : Prop where
  param : slave.syncClass.HasParam slave.param
  ne_nil : slave.extList ≠ []
  exts : ∀ ext ∈ slave.extList, slave.syncClass.HasExt ext

/-- The ext node of a variable holds what is read in it. -/
theorem hasExt_newSyncExt (data : ExtData) (cls : SyncClass) : cls.HasExt (newSyncExt data cls) := by
  cases cls <;> trivial

/-- A new slave node is typed. -/
theorem addSyncSlaveNode_typed (data : ExtData) : SlaveTyped (addSyncSlaveNode data) where
  param := by
    have hparam : (addSyncSlaveNode data).param =
      newSyncSlaveParam data (addSyncSlaveNode data).syncClass := rfl
    rw [hparam]
    cases (addSyncSlaveNode data).syncClass <;> trivial
  ne_nil := List.cons_ne_nil _ _
  exts ext hext := by
    obtain rfl := List.mem_singleton.mp hext
    exact hasExt_newSyncExt data _

/-- What inserting an ext node can bring into a list. -/
theorem mem_insertSyncExt {new : SyncExtModbus} {exts : List SyncExt} {x : SyncExt}
    (h : x ∈ insertSyncExt new exts) :
    x = .modbus new ∨ x ∈ exts := by
  induction exts with
  | nil => exact .inl (List.mem_singleton.mp h)
  | cons ext exts ih =>
    cases ext with
    | modbus e =>
      rw [insertSyncExt] at h
      split_ifs at h
      · exact List.mem_cons.mp h
      · exact .inr h
      · exact (List.mem_cons.mp h).elim (fun heq => .inr (heq ▸ List.mem_cons_self)) fun hmem =>
          (ih hmem).imp_right (List.mem_cons_of_mem _)
    | _ =>
      rw [insertSyncExt] at h
      · exact (List.mem_cons.mp h).elim (fun heq => .inr (heq ▸ List.mem_cons_self)) fun hmem =>
          (ih hmem).imp_right (List.mem_cons_of_mem _)
      · simp

/-- Inserting an ext node empties no list. -/
theorem insertSyncExt_ne_nil (new : SyncExtModbus) (exts : List SyncExt) :
    insertSyncExt new exts ≠ [] := by
  cases exts with
  | nil => exact List.cons_ne_nil _ _
  | cons ext exts =>
    cases ext with
    | modbus e =>
      rw [insertSyncExt]
      split_ifs <;> exact List.cons_ne_nil _ _
    | _ => exact List.cons_ne_nil _ _

/-- A slave node that a variable is added to stays typed. -/
theorem SlaveTyped.addExtToSlave {slave : SyncSlave} (h : SlaveTyped slave) (data : ExtData) :
    SlaveTyped (addExtToSlave data slave) := by
  rw [VarManage.addExtToSlave]
  split
  · next hclass =>
    refine ⟨h.param, insertSyncExt_ne_nil _ _, fun ext hext => ?_⟩
    rcases mem_insertSyncExt hext with rfl | hmem
    · change slave.syncClass.HasExt _
      rw [hclass]
      trivial
    · exact h.exts ext hmem
  · exact h
  · refine ⟨h.param, by simp, fun ext hext => ?_⟩
    rcases List.mem_append.mp hext with hmem | hmem
    · exact h.exts ext hmem
    · obtain rfl := List.mem_singleton.mp hmem
      exact hasExt_newSyncExt data slave.syncClass

/-- So do all slave nodes. -/
theorem addSyncExtNode_typed (data : ExtData) {plan : List SyncSlave}
    (h : ∀ slave ∈ plan, SlaveTyped slave) :
    ∀ slave ∈ addSyncExtNode data plan, SlaveTyped slave := by
  induction plan with
  | nil =>
    intro slave hslave
    obtain rfl := List.mem_singleton.mp hslave
    exact addSyncSlaveNode_typed data
  | cons slave plan ih =>
    obtain ⟨hslave, hplan⟩ := List.forall_mem_cons.mp h
    rw [addSyncExtNode]
    split
    · exact List.forall_mem_cons.mpr ⟨hslave.addExtToSlave data, hplan⟩
    · exact List.forall_mem_cons.mpr ⟨hslave, ih hplan⟩

/-- Merging leaves ext nodes of Modbus or those that were there. -/
theorem mem_trimExtList {node : SyncExtModbus} {exts : List SyncExt} {x : SyncExt}
    (h : x ∈ trimExtList node exts) :
    (∃ a, x = .modbus a) ∨ x ∈ exts := by
  induction exts generalizing node with
  | nil => exact .inl ⟨node, List.mem_singleton.mp h⟩
  | cons ext exts ih =>
    cases ext with
    | modbus next =>
      rw [trimExtList] at h
      split at h
      · exact (ih h).imp_right (List.mem_cons_of_mem _)
      · rcases List.mem_cons.mp h with rfl | hmem
        · exact .inl ⟨node, rfl⟩
        · exact (ih hmem).imp_right (List.mem_cons_of_mem _)
    | _ =>
      rcases List.mem_cons.mp h with rfl | hmem
      · exact .inl ⟨node, rfl⟩
      · exact .inr hmem

/-- Merging empties no list. -/
theorem trimExtList_ne_nil (node : SyncExtModbus) (exts : List SyncExt) :
    trimExtList node exts ≠ [] := by
  induction exts generalizing node with
  | nil => exact List.cons_ne_nil _ _
  | cons ext exts ih =>
    cases ext with
    | modbus next =>
      rw [trimExtList]
      split
      · exact ih _
      · exact List.cons_ne_nil _ _
    | _ => exact List.cons_ne_nil _ _

/-- A slave node stays typed when its ext nodes are merged. -/
theorem SlaveTyped.trimSyncSlave {slave : SyncSlave} (h : SlaveTyped slave) :
    SlaveTyped (trimSyncSlave slave) := by
  rw [VarManage.trimSyncSlave]
  split
  · next hmodbus =>
    split
    · next node rest hexts =>
      have hclass : slave.syncClass = .modbus := by
        have hnode := h.exts (.modbus node) (by rw [hexts]; exact List.mem_cons_self)
        cases hcls : slave.syncClass <;> rw [hcls] at hnode <;> first | rfl | exact hnode.elim
      refine ⟨h.param, trimExtList_ne_nil _ _, fun ext hext => ?_⟩
      rcases mem_trimExtList hext with ⟨a, rfl⟩ | hmem
      · change slave.syncClass.HasExt _
        rw [hclass]
        trivial
      · exact h.exts ext (by rw [hexts]; exact List.mem_cons_of_mem _ hmem)
    · exact h
  · exact h

/-- The slave nodes of the plan are typed. -/
theorem creatSyncSlaveLink_typed (vars : List ExtData) :
    ∀ slave ∈ creatSyncSlaveLink vars, SlaveTyped slave := by
  have hadded : ∀ slave ∈ addedSyncSlaves vars, SlaveTyped slave := by
    induction vars using List.reverseRecOn with
    | nil => simp [addedSyncSlaves]
    | append_singleton vars data ih =>
      rw [addedSyncSlaves] at ih ⊢
      rw [List.foldl_append, List.foldl_cons, List.foldl_nil]
      split
      · exact addSyncExtNode_typed data ih
      · exact ih
  exact List.forall_mem_map.mpr fun slave hslave => (hadded slave hslave).trimSyncSlave

/-- The register address of a node, with its offset and size if it has them. -/
def SyncNodeParam.register : SyncNodeParam → Option (UInt16 × Option (UInt16 × UInt8))
  | .self addr | .dlt645 _ addr _ | .mbus603 _ addr _ | .dust addr _ | .smf addr _ | .dh
    _ _ _ addr => some (addr, none)
  | .modbus _ _ extAddr extOfs extSize | .obmodbus _ _ extAddr extOfs extSize =>
    some (extAddr, some (extOfs, extSize))
  | .blank => none

/-- Those of an ext node. -/
def SyncExt.register : SyncExt → Option (UInt16 × Option (UInt16 × UInt8))
  | .self addr | .dlt645 addr _ | .mbus603 addr _ | .dust addr _ | .smf addr _ | .dh addr _ =>
    some (addr, none)
  | .modbus ext => some (ext.addr, some (ext.ofs, ext.size))
  | .obmodbus addr ofs size => some (addr, some (ofs, size))
  | .blank => none

/-- A node carries the device of a pair and the register address, offset and size of its ext node,
if it has them. -/
def CarriesPair (node : SyncNode) (pair : SyncPair) : Prop :=
  node.devType = pair.1.devType ∧ node.devNum = pair.1.devNum ∧ node.protoType = pair.1.protoType ∧
    ∀ register, pair.2.2.register = some register → node.param.register = some register

/-- The fields that are copied are those of the pair. -/
theorem register_syncNodeParam {cell : SyncSlaveCell} {ext : SyncExt}
    (hparam : cell.syncClass.HasParam cell.param)
    (hext : cell.syncClass.HasExt ext) (old : SyncNodeParam) :
    ext = .blank ∨ (syncNodeParam old cell ext).register = ext.register := by
  unfold syncNodeParam
  cases hcls : cell.syncClass <;> rw [hcls] at hparam hext <;> cases ext <;>
    first
      | exact False.elim hext
      | exact .inl rfl
      | exact .inr rfl
      | (cases hp : cell.param <;> rw [hp]
        at hparam <;> first | exact False.elim hparam | exact .inr rfl)

/-- From some pointers on the calls meet every pair of the plan in order and then return
`VAR_FALSE`, whatever the node held before. -/
def Enumerates (plan : SyncPlan) (cursor : SyncCursor) : Prop :=
  ∀ node, ∃ visits last, pollRound plan ((planPairs plan).length + 1) cursor node =
    some (visits, (none, last)) ∧
    visits.map Prod.fst = (planPairs plan).map SyncPair.cursor ∧
    List.Forall₂ CarriesPair (visits.map Prod.snd) (planPairs plan)

/-- From pointers that move to the first of some last pairs the calls meet these. -/
theorem pollRound_from {plan : SyncPlan} {lists : List SyncCellList} (h : PlanRep plan lists)
    (htyped : ∀ x ∈ lists, SlaveTyped x.slave) {done rest : List SyncPair}
    (hpairs : pairsOf lists = done ++ rest)
    {cursor : SyncCursor} {ext : Option ℕ}
    (hmove : moveCursor plan cursor = some (cursorAt rest ext)) (node : SyncNode) :
    ∃ visits last, pollRound plan (rest.length + 1) cursor node = some (visits, (none, last)) ∧
      visits.map Prod.fst = rest.map SyncPair.cursor ∧
      List.Forall₂ CarriesPair (visits.map Prod.snd) rest := by
  have hne : ∀ x ∈ lists, x.2 ≠ [] :=
    fun x hx hnil => (htyped x hx).ne_nil (List.map_eq_nil_iff.mpr hnil)
  induction rest generalizing done cursor ext node with
  | nil =>
    refine ⟨[], ext, ?_, rfl, .nil⟩
    rw [pollRound, getNextSyncExtNode, hmove, cursorAt]
    rfl
  | cons pair rest ih =>
    have hmem : pair ∈ pairsOf lists := by
      rw [hpairs]
      simp
    set copied : SyncNode :=
      ⟨pair.1.devType, pair.1.devNum, pair.1.protoType, syncNodeParam node.param pair.1 pair.2.2⟩
    have hcall : getNextSyncExtNode plan cursor node = some (true, pair.cursor, copied) :=
      getNextSyncExtNode_pair h hmem hmove node
    have hshift : pairsOf lists = done ++ [pair] ++ rest := by
      rw [hpairs]
      simp
    obtain ⟨visits, last, hround, hcursors, hcarries⟩ := ih hshift (moveCursor_pair h hne hpairs) copied
    refine ⟨(pair.cursor, copied) :: visits, last, ?_, ?_, .cons ?_ hcarries⟩
    · rw [List.length_cons, pollRound, hcall, Option.bind_some]
      simp only [if_true, hround, Option.map_some]
    · rw [List.map_cons, List.map_cons, hcursors]
    · refine ⟨rfl, rfl, rfl, fun register hregister => ?_⟩
      obtain ⟨x, hx, hnode⟩ := List.mem_flatMap.mp hmem
      obtain ⟨n, hn, rfl⟩ := List.mem_map.mp hnode
      have hslave := htyped x hx
      rcases register_syncNodeParam hslave.param (hslave.exts n.2 (List.mem_map_of_mem hn))
        node.param with hblank | heq
      · rw [show (x.1, n).2.2 = n.2 from rfl, hblank] at hregister
        cases hregister
      · exact heq.trans hregister

/-- The pointers to the pairs of a plan are distinct. -/
theorem cursors_nodup {plan : SyncPlan} {lists : List SyncCellList} (h : PlanRep plan lists) :
    ((pairsOf lists).map SyncPair.cursor).Nodup := by
  have haddrs : (pairsOf lists).map (fun pair => pair.2.1) = planAddrs lists := by
    rw [pairsOf, planAddrs, List.map_flatMap]
    simp only [linkAddrs, List.map_map]
    rfl
  refine List.Nodup.of_map (fun cursor : SyncCursor => cursor.2.getD 0) ?_
  rw [List.map_map]
  exact haddrs ▸ h.links.nodup

/-- The polling task meets every pair of a plan once and in order, from null pointers and from all
that are not in the plan. -/
theorem pollEnumeration (brk : ℕ) (vars : List ExtData) :
    ∃ plan, creatSyncPlan brk vars = some plan ∧
      (planPairs plan).map (fun pair => pair.2.2) = (creatSyncSlaveLink vars).flatMap (·.extList) ∧
      ((planPairs plan).map SyncPair.cursor).Nodup ∧ Enumerates plan (none, none) ∧
      ∀ cursor, cursor ∉ (planPairs plan).map SyncPair.cursor → Enumerates plan cursor := by
  obtain ⟨plan, lists, hcreat, hrep, hslaves⟩ := creatSyncPlan_rep brk vars
  have hpairs := planPairs_eq hrep
  have htyped : ∀ x ∈ lists, SlaveTyped x.slave := by
    intro x hx
    refine creatSyncSlaveLink_typed vars x.slave ?_
    rw [← hslaves]
    exact List.mem_map_of_mem hx
  have hne : ∀ x ∈ lists, x.2 ≠ [] :=
    fun x hx hnil => (htyped x hx).ne_nil (List.map_eq_nil_iff.mpr hnil)
  have hother : ∀ cursor, cursor ∉ (planPairs plan).map SyncPair.cursor → Enumerates plan cursor := by
    intro cursor hcursor node
    rw [hpairs] at hcursor ⊢
    exact pollRound_from hrep htyped (List.nil_append _).symm (moveCursor_other hrep hne hcursor) node
  refine ⟨plan, hcreat, ?_, ?_, hother _ ?_, hother⟩
  · rw [hpairs, ← hslaves, pairsOf, List.map_flatMap, List.flatMap_map]
    simp only [List.map_map]
    rfl
  · rw [hpairs]
    exact cursors_nodup hrep
  · simp [SyncPair.cursor]

end DasEdge.VarManage
