import DasEdge.VarManage.SyncPlan
import Mathlib.Data.List.Nodup

/-!
# The links of the poll plan

The nodes that are linked in memory are the poll plan: every slave node links its ext nodes both
ways, no node is linked twice, and a step on the nodes is the step on the plan.
-/

namespace DasEdge.VarManage

open DasEdge.Library

/-- A slave node and the ext nodes that it links. -/
abbrev SyncCellList := SyncSlaveCell × List (ℕ × SyncExt)

/-- The slave node of the plan. -/
def SyncCellList.slave (x : SyncCellList) : SyncSlave := x.1.slave (x.2.map Prod.snd)

/-- The addresses of ext nodes. -/
def planAddrs (lists : List SyncCellList) : List ℕ := lists.flatMap fun x => linkAddrs x.2

@[simp] theorem planAddrs_cons (x : SyncCellList) (lists : List SyncCellList) :
    planAddrs (x :: lists) = linkAddrs x.2 ++ planAddrs lists := rfl

/-- The ext nodes are linked from their slave nodes, each once, and have numbers that were handed
out. -/
structure PlanLinks (exts : LinkHeap SyncExt) (brk : ℕ) (lists : List SyncCellList) : Prop where
  linked : ∀ x ∈ lists, LinkedList exts x.1.extList x.2
  nodup : (planAddrs lists).Nodup
  below : ∀ p ∈ planAddrs lists, p < brk
  cells : (lists.map (·.1.addr)).Nodup
  cellsBelow : ∀ x ∈ lists, x.1.addr < brk

/-- The links of the first slave node and those of the others. -/
theorem planLinks_cons {exts : LinkHeap SyncExt} {brk : ℕ} {x : SyncCellList}
    {lists : List SyncCellList} :
    PlanLinks exts brk (x :: lists) ↔ PlanLinks exts brk lists ∧ LinkedList exts x.1.extList x.2 ∧
      (∀ p ∈ linkAddrs x.2, p < brk ∧ p ∉ planAddrs lists) ∧ x.1.addr < brk ∧
        x.1.addr ∉ lists.map (·.1.addr) := by
  constructor
  · rintro ⟨hlinked, hnodup, hbelow, hcells, hcellsBelow⟩
    rw [planAddrs_cons] at hnodup hbelow
    obtain ⟨-, hrest, hdisjoint⟩ := List.nodup_append.mp hnodup
    obtain ⟨hx, hbelow⟩ := List.forall_mem_append.mp hbelow
    obtain ⟨hfirst, hlinked⟩ := List.forall_mem_cons.mp hlinked
    obtain ⟨hcell, hcellsBelow⟩ := List.forall_mem_cons.mp hcellsBelow
    obtain ⟨hfresh, hcells⟩ := List.nodup_cons.mp hcells
    exact ⟨⟨hlinked, hrest, hbelow, hcells, hcellsBelow⟩, hfirst,
      fun p hp => ⟨hx p hp, fun hmem => hdisjoint p hp p hmem rfl⟩, hcell, hfresh⟩
  · rintro ⟨⟨hlinked, hrest, hbelow, hcells, hcellsBelow⟩, hfirst, hx, hcell, hfresh⟩
    refine ⟨List.forall_mem_cons.mpr ⟨hfirst, hlinked⟩, ?_, ?_, List.nodup_cons.mpr ⟨hfresh, hcells⟩,
      List.forall_mem_cons.mpr ⟨hcell, hcellsBelow⟩⟩
    · refine List.nodup_append.mpr ⟨hfirst.nodup, hrest, ?_⟩
      rintro p hp q hq rfl
      exact (hx p hp).2 hq
    · exact List.forall_mem_append.mpr ⟨fun p hp => (hx p hp).1, hbelow⟩

/-- Links stay where the nodes change at other addresses, also when more numbers are handed out. -/
theorem PlanLinks.congr {exts exts' : LinkHeap SyncExt} {brk brk' : ℕ} {lists : List SyncCellList}
    {ps : List ℕ}
    (h : PlanLinks exts brk lists) (hbrk : brk ≤ brk') (hat : ChangedAt exts exts' ps)
    (hoff : ∀ p ∈ planAddrs lists, p ∉ ps) :
    PlanLinks exts' brk' lists where
  linked x hx := (h.linked x hx).congr hat fun r hr => hoff r (List.mem_flatMap.mpr ⟨x, hx, hr⟩)
  nodup := h.nodup
  below p hp := (h.below p hp).trans_le hbrk
  cells := h.cells
  cellsBelow x hx := (h.cellsBelow x hx).trans_le hbrk

/-- Distinct numbers below a bound. -/
theorem length_le_of_below {ps : List ℕ} {n : ℕ} (hnodup : ps.Nodup) (hbelow : ∀ p ∈ ps, p < n) :
    ps.length ≤ n := by
  have hsub : ps ⊆ List.range n := fun p hp => List.mem_range.mpr (hbelow p hp)
  have hle := (hnodup.subperm hsub).length_le
  rwa [List.length_range] at hle

/-- A slave node with ext nodes at numbers that were handed out has fewer of them. -/
theorem length_nodes_le {exts : LinkHeap SyncExt} {start : Option ℕ} {xs : List (ℕ × SyncExt)} {p : ℕ}
    (hlist : LinkedList exts start xs) (hbelow : ∀ r ∈ linkAddrs xs, r < p) : xs.length ≤ p := by
  rw [← List.length_map Prod.fst]
  exact length_le_of_below hlist.nodup hbelow

/-- What the loop over a Modbus slave node comes to from the nodes `ys` on: its end, when the new
node belongs there, or the nodes with the new one where the plan has it. -/
inductive InsertsExt (new : SyncExtModbus) (p : ℕ) (exts : LinkHeap SyncExt)
    (xs ys : List (ℕ × SyncExt)) :
    Option (Option (LinkHeap SyncExt × Option ℕ)) → Prop where
  | atEnd (hplan : insertSyncExt new (ys.map Prod.snd) = ys.map Prod.snd ++ [.modbus new]) :
    InsertsExt new p exts xs ys (some none)
  | placed (exts' : LinkHeap SyncExt) (start' : Option ℕ) (ys' : List (ℕ × SyncExt))
      (hlinked : LinkedList exts' start' (xs ++ ys'))
        (hplan : ys'.map Prod.snd = insertSyncExt new (ys.map Prod.snd))
      (haddrs : ∀ r ∈ linkAddrs ys', r ∈ p :: linkAddrs ys)
        (hat : ChangedAt exts exts' (p :: linkAddrs (xs ++ ys))) :
      InsertsExt new p exts xs ys (some (some (exts', start')))

/-- A node that is passed over stays in front of what the rounds behind it come to. -/
theorem InsertsExt.cons {new : SyncExtModbus} {p q : ℕ} {exts : LinkHeap SyncExt}
    {xs ys : List (ℕ × SyncExt)} {e : SyncExt}
    {result : Option (Option (LinkHeap SyncExt × Option ℕ))}
    (h : InsertsExt new p exts (xs ++ [(q, e)]) ys result)
    (hpass : insertSyncExt new (e :: ys.map Prod.snd) = e :: insertSyncExt new (ys.map Prod.snd)) :
    InsertsExt new p exts xs ((q, e) :: ys) result := by
  cases h with
  | atEnd hplan => exact .atEnd (by rw [List.map_cons, hpass, hplan, List.cons_append])
  | placed exts' start' ys' hlinked hplan haddrs hat =>
    rw [List.append_assoc] at hlinked hat
    refine .placed exts' start' ((q, e) :: ys') hlinked
      (by rw [List.map_cons, List.map_cons, hpass, hplan]) ?_ hat
    rw [linkAddrs_cons, linkAddrs_cons, List.forall_mem_cons]
    refine ⟨by simp, fun r hr => ?_⟩
    rcases List.mem_cons.mp (haddrs r hr) with rfl | hmem
    · exact List.mem_cons_self
    · exact List.mem_cons_of_mem _ (List.mem_cons_of_mem _ hmem)

/-- The loop over a Modbus slave node puts the new node where the plan has it. -/
theorem insertSyncExtAt_inserts {new : SyncExtModbus} {p : ℕ} {exts : LinkHeap SyncExt}
    {start : Option ℕ}
    (hp : exts p = some ⟨.modbus new, none, none⟩) {xs ys : List (ℕ × SyncExt)} {fuel : ℕ}
    (hfuel : ys.length < fuel)
    (hlist : LinkedList exts start (xs ++ ys)) (hfresh : p ∉ linkAddrs (xs ++ ys)) :
    InsertsExt new p exts xs ys (insertSyncExtAt new p exts start fuel (linkAddrs ys).head?) := by
  induction ys generalizing xs fuel with
  | nil =>
    obtain ⟨fuel, rfl⟩ : ∃ k, fuel = k + 1 := ⟨fuel - 1, by omega⟩
    exact .atEnd rfl
  | cons y ys ih =>
    obtain ⟨q, e⟩ := y
    obtain ⟨fuel, rfl⟩ : ∃ k, fuel = k + 1 :=
      ⟨fuel - 1, by simp only [List.length_cons] at hfuel; omega⟩
    have hnode := hlist.node
    have hshift : xs ++ (q, e) :: ys = xs ++ [(q, e)] ++ ys := by simp
    have hrest := ih (by simpa using hfuel) (hshift ▸ hlist) (hshift ▸ hfresh)
    rw [linkAddrs_cons, List.head?_cons]
    cases e with
    | modbus ext =>
      by_cases hlt : new.addr < ext.addr
      · obtain ⟨exts', start', hinsert, hlinked, -, hat⟩ := hlist.insert hfresh hp
        simp only [insertSyncExtAt, hnode, Option.bind_some, if_pos hlt, hinsert, Option.map_some]
        refine .placed exts' start' ((p, .modbus new) :: (q, .modbus ext) :: ys) hlinked ?_
          (by simp) (hat.mono fun r hr => ?_)
        · simp only [List.map_cons, insertSyncExt, if_pos hlt]
        · simp only [linkAddrs_append, linkAddrs_cons, List.mem_append, List.mem_cons] at hr ⊢
          tauto
      · by_cases hsame : new.addr = ext.addr && new.ofs = ext.ofs && new.size = ext.size
        · simp only [insertSyncExtAt, hnode, Option.bind_some, if_neg hlt, if_pos hsame]
          refine .placed _ start ((q, .modbus ext) :: ys) ?_ ?_ (fun r hr => List.mem_cons_of_mem _ hr)
            (changedAt_update exts none List.mem_cons_self)
          · exact hlist.congr (changedAt_update exts none (List.mem_singleton_self p))
              fun r hr hmem => hfresh (List.mem_singleton.mp hmem ▸ hr)
          · simp only [List.map_cons, insertSyncExt, if_neg hlt, if_pos hsame]
        · simp only [insertSyncExtAt, hnode, Option.bind_some, if_neg hlt, if_neg hsame]
          exact hrest.cons (by simp only [insertSyncExt, if_neg hlt, if_neg hsame])
    | _ =>
      simp only [insertSyncExtAt, hnode, Option.bind_some]
      exact hrest.cons rfl

/-- A slave node after a step, and what the step is on the plan. -/
structure CellStep (exts exts' : LinkHeap SyncExt) (p : ℕ) (x x' : SyncCellList)
    (slave : SyncSlave) : Prop where
  linked : LinkedList exts' x'.1.extList x'.2
  plan : x'.slave = slave
  addr : x'.1.addr = x.1.addr
  addrs : ∀ r ∈ linkAddrs x'.2, r ∈ p :: linkAddrs x.2
  changed : ChangedAt exts exts' (p :: linkAddrs x.2)

/-- A new node behind the last one of a slave node. -/
theorem appendExt_keeps {exts : LinkHeap SyncExt} {p : ℕ} {x : SyncCellList} (new : SyncExt)
    (hlist : LinkedList exts x.1.extList x.2) (hbelow : ∀ r ∈ linkAddrs x.2, r < p) :
    ∃ exts' start', appendLink (p + 1) (Function.update exts p (some ⟨new, none, none⟩)) x.1.extList
      p = some (exts', start') ∧
      CellStep exts exts' p x ({ x.1 with extList := start' }, x.2 ++ [(p, new)])
        { x.slave with extList := x.slave.extList ++ [new] } := by
  have hfresh : p ∉ linkAddrs x.2 := fun hmem => Nat.lt_irrefl p (hbelow p hmem)
  have hnew := changedAt_update exts (some ⟨new, none, none⟩) (List.mem_singleton_self p)
  have hlist' := hlist.congr hnew fun r hr hmem => hfresh (List.mem_singleton.mp hmem ▸ hr)
  have hfuel := (length_nodes_le hlist hbelow).trans (Nat.le_succ p)
  obtain ⟨exts', start', happend, hlinked, -, hat⟩ :=
    hlist'.append hfuel hfresh (Function.update_self ..)
  refine ⟨exts', start', happend, hlinked, ?_, rfl, ?_,
    (hnew.mono (by simp)).trans (hat.mono fun r hr => ?_)⟩
  · simp [SyncCellList.slave, SyncSlaveCell.slave]
  · intro r hr
    simpa [or_comm] using hr
  · simpa [or_comm] using hr

/-- A new node in the slave node that was found. -/
theorem addExtToCell_keeps (data : ExtData) {exts : LinkHeap SyncExt} {p : ℕ} {x : SyncCellList}
    (hlist : LinkedList exts x.1.extList x.2) (hbelow : ∀ r ∈ linkAddrs x.2, r < p) :
    ∃ (exts' : LinkHeap SyncExt) (x' : SyncCellList), addExtToCell data exts p x.1 =
      some (exts', x'.1) ∧
      CellStep exts exts' p x x' (addExtToSlave data x.slave) := by
  obtain ⟨exts', start', happend, hstep⟩ := appendExt_keeps (newSyncExt data x.1.syncClass) hlist hbelow
  have hclass : x.slave.syncClass = x.1.syncClass := rfl
  cases hcls : x.1.syncClass with
  | modbus =>
    rw [hcls] at happend hstep
    have hfresh : p ∉ linkAddrs x.2 := fun hmem => Nat.lt_irrefl p (hbelow p hmem)
    have hnew :=
      changedAt_update exts (some ⟨.modbus (modbusExt data), none, none⟩)
      (List.mem_singleton_self p)
    have hlist' := hlist.congr hnew fun r hr hmem => hfresh (List.mem_singleton.mp hmem ▸ hr)
    have hinserts : InsertsExt (modbusExt data) p _ [] x.2 _ :=
      insertSyncExtAt_inserts (Function.update_self ..)
        (Nat.lt_succ_of_le (length_nodes_le hlist hbelow)) hlist' hfresh
    rw [← hlist.start_eq] at hinserts
    rw [newSyncExt] at happend
    generalize hround : insertSyncExtAt (modbusExt data) p
        (Function.update exts p (some ⟨.modbus (modbusExt data), none, none⟩)) x.1.extList
          (p + 1) x.1.extList = result at hinserts
    have hplan : addExtToSlave data x.slave =
        { x.slave with extList := insertSyncExt (modbusExt data) x.slave.extList } := by
      rw [addExtToSlave, hclass, hcls]
    cases hinserts with
    | atEnd hlast =>
      refine ⟨exts', ({ x.1 with extList := start' }, x.2 ++ [(p, .modbus (modbusExt data))]), ?_, ?_⟩
      · simp only [addExtToCell, hcls, newSyncExt, hround, happend, Option.bind_some, Option.map_some]
      · rw [hplan, show insertSyncExt (modbusExt data) x.slave.extList = _ from hlast]
        exact hstep
    | placed exts₁ start₁ ys hlinked hdata haddrs hat =>
      refine ⟨exts₁, ({ x.1 with extList := start₁ }, ys), ?_, hlinked, ?_, rfl, haddrs,
        (hnew.mono (by simp)).trans hat⟩
      · simp only [addExtToCell, hcls, newSyncExt, hround, Option.bind_some]
      · rw [hplan]
        simp only [SyncCellList.slave, SyncSlaveCell.slave, hdata]
  | dh =>
    refine ⟨exts, x, by simp only [addExtToCell, hcls], hlist, ?_, rfl,
      fun r hr => List.mem_cons_of_mem _ hr, .refl _ _⟩
    rw [addExtToSlave, hclass, hcls]
  | _ =>
    refine ⟨exts', ({ x.1 with extList := start' }, x.2 ++ [(p, newSyncExt data x.1.syncClass)]),
      ?_, ?_⟩
    · rw [hcls] at happend
      simp only [addExtToCell, hcls, happend, Option.map_some]
    · simpa only [addExtToSlave, hclass, hcls] using hstep

/-- A slave node that is new. -/
theorem addSyncSlaveCell_keeps (data : ExtData) (exts : LinkHeap SyncExt) (p : ℕ) :
    ∃ x : SyncCellList, addSyncSlaveCell data exts p = (Function.update exts (p + 1)
        (some ⟨newSyncExt data (addSyncSlaveNode data).syncClass, none, none⟩), x.1) ∧
      LinkedList (addSyncSlaveCell data exts p).1 x.1.extList x.2 ∧
      x.slave = addSyncSlaveNode data ∧ x.1.addr = p ∧
      linkAddrs x.2 = [p + 1] := by
  refine ⟨((addSyncSlaveCell data exts p).2,
    [(p + 1, newSyncExt data (addSyncSlaveNode data).syncClass)]), rfl, ?_, rfl, rfl, rfl⟩
  exact ⟨List.nodup_singleton _, some (p + 1), rfl, none, Function.update_self .., rfl, rfl⟩

/-- A round on the nodes is the round on the plan. -/
theorem addSyncExtCell_keeps (data : ExtData) {exts : LinkHeap SyncExt} {p : ℕ}
    {lists : List SyncCellList}
    (h : PlanLinks exts p lists) :
    ∃ (exts' : LinkHeap SyncExt) (lists' : List SyncCellList),
      addSyncExtCell data exts p (lists.map Prod.fst) = some (exts', lists'.map Prod.fst) ∧
      PlanLinks exts' (p + 2) lists' ∧
        lists'.map SyncCellList.slave = addSyncExtNode data (lists.map SyncCellList.slave) ∧
        (∀ r ∈ planAddrs lists', r ∈ p :: (p + 1) :: planAddrs lists) ∧
        (∀ r ∈ lists'.map (·.1.addr), r ∈ p :: lists.map (·.1.addr)) ∧
        ChangedAt exts exts' (p :: (p + 1) :: planAddrs lists) := by
  induction lists with
  | nil =>
    obtain ⟨x, hcell, hlinked, hslave, haddr, haddrs⟩ := addSyncSlaveCell_keeps data exts p
    refine ⟨(addSyncSlaveCell data exts p).1, [x], ?_, ?_, ?_, ?_, ?_, ?_⟩
    · rw [List.map_nil, addSyncExtCell, hcell]
      rfl
    · rw [planLinks_cons, haddrs, haddr]
      refine ⟨⟨by simp, List.nodup_nil, by simp [planAddrs], List.nodup_nil, by simp⟩, hlinked,
        ?_, by omega, by simp⟩
      simp [planAddrs]
    · rw [List.map_singleton, hslave]
      rfl
    · simp [haddrs, planAddrs]
    · simp [haddr]
    · rw [hcell]
      exact changedAt_update exts _ (by simp)
  | cons x lists ih =>
    obtain ⟨hrest, hlinked, haddrs, hcell, hfresh⟩ := planLinks_cons.mp h
    have hfind : findSyncSlaveNode data x.slave = findSyncSlaveNode data (x.1.slave []) := rfl
    rw [List.map_cons, List.map_cons, addSyncExtCell, addSyncExtNode, hfind]
    split
    · -- the slave node that was found
      obtain ⟨exts', x', hadd, hstep⟩ := addExtToCell_keeps data hlinked fun r hr => (haddrs r hr).1
      have hoff : ∀ r ∈ planAddrs lists, r ∉ p :: linkAddrs x.2 := by
        intro r hr hmem
        rcases List.mem_cons.mp hmem with rfl | hmem
        · exact Nat.lt_irrefl r (hrest.below r hr)
        · exact (haddrs r hmem).2 hr
      have hnew : ∀ r ∈ linkAddrs x'.2, r < p + 2 ∧ r ∉ planAddrs lists := by
        intro r hr
        refine ⟨?_, fun hmem => hoff r hmem (hstep.addrs r hr)⟩
        rcases List.mem_cons.mp (hstep.addrs r hr) with rfl | hmem
        · omega
        · exact (haddrs r hmem).1.trans (by omega)
      refine ⟨exts', x' :: lists, by rw [hadd]; rfl, ?_, ?_, ?_, ?_, ?_⟩
      · rw [planLinks_cons, hstep.addr]
        exact ⟨hrest.congr (by omega) hstep.changed hoff, hstep.linked, hnew,
          hcell.trans (by omega), hfresh⟩
      · rw [List.map_cons, hstep.plan]
      · intro r hr
        rw [planAddrs_cons, List.mem_append] at hr
        have := hstep.addrs r
        simp only [planAddrs_cons, List.mem_cons, List.mem_append] at this ⊢
        tauto
      · rw [List.map_cons, hstep.addr]
        exact fun r hr => List.mem_cons_of_mem _ hr
      · exact hstep.changed.mono fun r hr => by
          simp only [planAddrs_cons, List.mem_cons, List.mem_append] at hr ⊢
          tauto
    · -- the search goes on
      obtain ⟨exts', lists', hadd, hlinks, hplan, hsub, hcells, hat⟩ := ih hrest
      have hoff : ∀ r ∈ linkAddrs x.2, r ∉ p :: (p + 1) :: planAddrs lists := by
        intro r hr hmem
        obtain ⟨hlt, hnot⟩ := haddrs r hr
        rcases List.mem_cons.mp hmem with rfl | hmem
        · exact Nat.lt_irrefl r hlt
        · rcases List.mem_cons.mp hmem with rfl | hmem
          · omega
          · exact hnot hmem
      refine ⟨exts', x :: lists', by rw [hadd]; rfl, ?_, ?_, ?_, ?_, ?_⟩
      · rw [planLinks_cons]
        refine ⟨hlinks, hlinked.congr hat hoff,
          fun r hr => ⟨?_, fun hmem => hoff r hr (hsub r hmem)⟩, hcell.trans (by omega), ?_⟩
        · exact (haddrs r hr).1.trans (by omega)
        · intro hmem
          rcases List.mem_cons.mp (hcells _ hmem) with heq | hmem
          · exact Nat.lt_irrefl p (heq ▸ hcell)
          · exact hfresh hmem
      · rw [List.map_cons, hplan]
      · intro r hr
        rw [planAddrs_cons, List.mem_append] at hr
        have := hsub r
        simp only [planAddrs_cons, List.mem_cons, List.mem_append] at this ⊢
        tauto
      · intro r hr
        have := hcells r
        simp only [List.map_cons, List.mem_cons] at this hr ⊢
        tauto
      · exact hat.mono fun r hr => by
          simp only [planAddrs_cons, List.mem_cons, List.mem_append] at hr ⊢
          tauto

/-- The nodes of a plan. -/
structure PlanRep (plan : SyncPlan) (lists : List SyncCellList) : Prop where
  slaves : plan.slaves = lists.map Prod.fst
  links : PlanLinks plan.exts plan.brk lists

/-- A round of the loop keeps the nodes and is the round on the plan. -/
theorem addSyncPlan_keeps (data : ExtData) {plan : SyncPlan} {lists : List SyncCellList}
    (h : PlanRep plan lists) :
    ∃ plan' lists', addSyncPlan data plan = some plan' ∧ PlanRep plan' lists' ∧
      lists'.map SyncCellList.slave =
      if data.bEnable then addSyncExtNode data (lists.map SyncCellList.slave)
      else lists.map SyncCellList.slave := by
  rw [addSyncPlan]
  split
  · obtain ⟨exts', lists', hadd, hlinks, hplan, -⟩ := addSyncExtCell_keeps data h.links
    exact ⟨_, lists', by rw [h.slaves, hadd]; rfl, ⟨rfl, hlinks⟩, hplan⟩
  · exact ⟨plan, lists, rfl, h, rfl⟩

/-- The loop builds the nodes of the plan. -/
theorem addedSyncPlan_rep (brk : ℕ) (vars : List ExtData) :
    ∃ plan lists, addedSyncPlan brk vars = some plan ∧ PlanRep plan lists ∧
      lists.map SyncCellList.slave = addedSyncSlaves vars := by
  induction vars using List.reverseRecOn with
  | nil => exact ⟨_, [], rfl,
    ⟨rfl, by simp, List.nodup_nil, by simp [planAddrs], List.nodup_nil, by simp⟩, rfl⟩
  | append_singleton vars data ih =>
    obtain ⟨plan, lists, hadded, hrep, hplan⟩ := ih
    obtain ⟨plan', lists', hadd, hrep', hplan'⟩ := addSyncPlan_keeps data hrep
    refine ⟨plan', lists', ?_, hrep', ?_⟩
    · rw [addedSyncPlan] at hadded
      rw [addedSyncPlan, List.foldlM_append, hadded]
      simp [hadd]
    · rw [hplan', hplan, addedSyncSlaves, addedSyncSlaves, List.foldl_append]
      rfl

/-- Merging the ext nodes of a slave node from one on is merging on the plan. -/
theorem trimExtNodes_keeps {exts : LinkHeap SyncExt} {start : Option ℕ} {xs ys : List (ℕ × SyncExt)}
    {p : ℕ} {a : SyncExtModbus}
    {fuel : ℕ} (hfuel : ys.length < fuel) (hlist : LinkedList exts start (xs ++ (p, .modbus a) :: ys)) :
    ∃ (exts' : LinkHeap SyncExt) (ys' : List (ℕ × SyncExt)), trimExtNodes fuel exts p = some exts' ∧
      LinkedList exts' start (xs ++ ys') ∧ ys'.map Prod.snd = trimExtList a (ys.map Prod.snd) ∧
      (∀ r ∈ linkAddrs ys', r ∈ p :: linkAddrs ys) ∧
        ChangedAt exts exts' (linkAddrs (xs ++ (p, .modbus a) :: ys)) := by
  induction ys generalizing exts xs p a fuel with
  | nil =>
    obtain ⟨fuel, rfl⟩ : ∃ k, fuel = k + 1 := ⟨fuel - 1, by omega⟩
    refine ⟨exts, [(p, .modbus a)], ?_, hlist, rfl, by simp, .refl _ _⟩
    simp only [trimExtNodes, hlist.node, linkAddrs_nil, List.head?_nil, Option.bind_some]
  | cons y ys ih =>
    obtain ⟨q, e⟩ := y
    obtain ⟨fuel, rfl⟩ : ∃ k, fuel = k + 1 :=
      ⟨fuel - 1, by simp only [List.length_cons] at hfuel; omega⟩
    have hnode := hlist.node
    have hshift : xs ++ (p, .modbus a) :: (q, e) :: ys = xs ++ [(p, .modbus a)] ++ (q, e) ::
      ys := by simp
    have hnext := (hshift ▸ hlist).node
    rw [linkAddrs_cons, List.head?_cons] at hnode
    cases e with
    | modbus b =>
      cases hmerge : mergeSyncExt a b with
      | none =>
        obtain ⟨exts', ys', htrim, hlinked, hdata, haddrs, hat⟩ :=
          ih (by simpa using hfuel) (hshift ▸ hlist)
        refine ⟨exts', (p, .modbus a) :: ys', ?_, ?_, ?_, ?_, ?_⟩
        · simp only [trimExtNodes, hnode, hnext, hmerge, Option.bind_some, htrim]
        · rwa [List.append_assoc] at hlinked
        · simp only [List.map_cons, trimExtList, hmerge, hdata]
        · rw [linkAddrs_cons, linkAddrs_cons, List.forall_mem_cons]
          exact ⟨List.mem_cons_self, fun r hr => List.mem_cons_of_mem _ (haddrs r hr)⟩
        · rwa [← hshift] at hat
      | some merged =>
        obtain ⟨h₁, hset, hlinked₁, -, hat₁⟩ := hlist.setData (.modbus merged)
        have hshift' : xs ++ (p, .modbus merged) :: (q, .modbus b) :: ys =
            xs ++ [(p, .modbus merged)] ++ (q, .modbus b) :: ys := by simp
        rw [hshift'] at hlinked₁
        have hq := hlinked₁.node
        have hlast : (linkAddrs (xs ++ [(p, SyncExt.modbus merged)])).getLast? = some p := by simp
        rw [hlast] at hq
        obtain ⟨h₂, start', hunlink, hlinked₂, -, hat₂⟩ := hlinked₁.unlink
        -- the node is taken out from behind the one it was merged into
        obtain ⟨h₃, hnextSet, h₄, hbackSet, rfl, rfl⟩ : ∃ h₃,
          setNext h₁ p (linkAddrs ys).head? = some h₃ ∧
            ∃ h₄, setBack h₃ (linkAddrs ys).head? (some p) = some h₄ ∧
              Function.update h₄ q none = h₂ ∧ start = start' := by
          simp only [unlinkNode, hq, Option.bind_some, setEntry] at hunlink
          obtain ⟨r, hr, hback⟩ := Option.bind_eq_some_iff.mp hunlink
          obtain ⟨h₃, hnextSet, rfl⟩ := Option.map_eq_some_iff.mp hr
          obtain ⟨h₄, hbackSet, heq⟩ := Option.map_eq_some_iff.mp hback
          obtain ⟨hheap, hstart⟩ := Prod.mk.inj heq
          exact ⟨h₃, hnextSet, h₄, hbackSet, hheap, hstart⟩
        rw [List.append_assoc, List.singleton_append] at hlinked₂
        obtain ⟨exts', ys', htrim, hlinked, hdata, haddrs, hat⟩ := ih (by simpa using hfuel) hlinked₂
        refine ⟨exts', ys', ?_, hlinked, ?_, fun r hr => ?_, ?_⟩
        · simp only [trimExtNodes, hnode, hnext, hmerge, hset, hnextSet, hbackSet,
            Option.bind_some, htrim]
        · simp only [List.map_cons, trimExtList, hmerge, hdata]
        · rw [linkAddrs_cons]
          rcases List.mem_cons.mp (haddrs r hr) with rfl | hmem
          · exact List.mem_cons_self
          · exact List.mem_cons_of_mem _ (List.mem_cons_of_mem _ hmem)
        · refine (hat₁.mono (by simp)).trans
            ((hat₂.mono fun r hr => ?_).trans (hat.mono fun r hr => ?_))
          · simpa using hr
          · simp only [linkAddrs_append, linkAddrs_cons, List.mem_append, List.mem_cons] at hr ⊢
            tauto
    | _ =>
      refine ⟨exts, (p, .modbus a) :: (q, _) :: ys, ?_, hlist, rfl, fun r hr => hr, .refl _ _⟩
      simp only [trimExtNodes, hnode, hnext, Option.bind_some]

/-- A slave node whose first ext node is not a Modbus one is left alone. -/
theorem trimExtNodes_of_other {exts : LinkHeap SyncExt} {start : Option ℕ} {ys : List (ℕ × SyncExt)}
    {p : ℕ} {e : SyncExt}
    {fuel : ℕ} (hfuel : 0 < fuel) (hother : ∀ a, e ≠ .modbus a)
    (hlist : LinkedList exts start ((p, e) :: ys)) :
    trimExtNodes fuel exts p = some exts := by
  obtain ⟨fuel, rfl⟩ : ∃ k, fuel = k + 1 := ⟨fuel - 1, by omega⟩
  have hnode := LinkedList.node (show LinkedList exts start ([] ++ (p, e) :: ys) from hlist)
  cases ys with
  | nil => simp only [trimExtNodes, hnode, linkAddrs_nil, List.head?_nil, Option.bind_some]
  | cons y ys =>
    obtain ⟨q, f⟩ := y
    have hnext := LinkedList.node (show LinkedList exts start ([(p, e)] ++ (q, f) :: ys) from hlist)
    rw [linkAddrs_cons, List.head?_cons] at hnode
    simp only [trimExtNodes, hnode, hnext, Option.bind_some]
    cases e with
    | modbus a => exact absurd rfl (hother a)
    | _ => rfl

/-- Merging on one slave node. -/
theorem trimSyncCell_keeps {exts : LinkHeap SyncExt} {x : SyncCellList} {fuel : ℕ}
    (hlist : LinkedList exts x.1.extList x.2)
    (hfuel : x.2.length < fuel) :
    ∃ (exts' : LinkHeap SyncExt) (ys : List (ℕ × SyncExt)),
      trimSyncCell fuel exts x.1 = some exts' ∧ LinkedList exts' x.1.extList ys ∧
      SyncCellList.slave (x.1, ys) = trimSyncSlave x.slave ∧
      (∀ r ∈ linkAddrs ys, r ∈ linkAddrs x.2) ∧ ChangedAt exts exts' (linkAddrs x.2) := by
  obtain ⟨cell, nodes⟩ := x
  have hstart : cell.extList = (linkAddrs nodes).head? := hlist.start_eq
  cases nodes with
  | nil =>
    refine ⟨exts, [], by rw [trimSyncCell, hstart]; rfl, hlist, ?_, fun r hr => hr, .refl _ _⟩
    simp [trimSyncSlave, SyncCellList.slave, SyncSlaveCell.slave]
  | cons y ys =>
    obtain ⟨p, e⟩ := y
    rw [linkAddrs_cons, List.head?_cons] at hstart
    by_cases hmodbus : protoIsModbus cell.devType.toNat cell.protoType.toNat = true
    · cases e with
      | modbus a =>
        have hlength : ys.length < fuel := by
          simp only [List.length_cons] at hfuel
          omega
        obtain ⟨exts', ys', htrim, hlinked, hdata, haddrs, hat⟩ :=
          trimExtNodes_keeps hlength (show LinkedList exts cell.extList
            ([] ++ (p, .modbus a) :: ys) from hlist)
        refine ⟨exts', ys', ?_, hlinked, ?_, haddrs, hat⟩
        · simp only [trimSyncCell, hstart, if_pos hmodbus, htrim]
        · simp [trimSyncSlave, SyncCellList.slave, SyncSlaveCell.slave, hmodbus, hdata]
      | _ =>
        have htrim := trimExtNodes_of_other (Nat.zero_lt_of_lt hfuel) (by simp) hlist
        refine ⟨exts, (p, _) :: ys, ?_, hlist, ?_, fun r hr => hr, .refl _ _⟩
        · simp only [trimSyncCell, hstart, if_pos hmodbus, htrim]
        · simp [trimSyncSlave, SyncCellList.slave, SyncSlaveCell.slave, hmodbus]
    · refine ⟨exts, (p, e) :: ys, ?_, hlist, ?_, fun r hr => hr, .refl _ _⟩
      · simp only [trimSyncCell, hstart, if_neg hmodbus]
      · simp [trimSyncSlave, SyncCellList.slave, SyncSlaveCell.slave, hmodbus]

/-- Merging on all slave nodes is merging on the plan. -/
theorem trimSyncCells_keeps {exts : LinkHeap SyncExt} {brk fuel : ℕ} {lists : List SyncCellList}
    (h : PlanLinks exts brk lists)
    (hfuel : brk < fuel) :
    ∃ (exts' : LinkHeap SyncExt) (lists' : List SyncCellList),
      trimSyncCells fuel exts (lists.map Prod.fst) = some exts' ∧
      PlanLinks exts' brk lists' ∧ lists'.map Prod.fst = lists.map Prod.fst ∧
      lists'.map SyncCellList.slave = (lists.map SyncCellList.slave).map trimSyncSlave ∧
      (∀ r ∈ planAddrs lists', r ∈ planAddrs lists) ∧ ChangedAt exts exts' (planAddrs lists) := by
  induction lists generalizing exts with
  | nil => exact ⟨exts, [], rfl, h, rfl, rfl, fun r hr => hr, .refl _ _⟩
  | cons x lists ih =>
    obtain ⟨hrest, hlinked, haddrs, hcell, hfresh⟩ := planLinks_cons.mp h
    have hlength : x.2.length < fuel :=
      (length_nodes_le hlinked fun r hr => (haddrs r hr).1).trans_lt hfuel
    obtain ⟨exts₁, ys, htrim, hlinked₁, hslave, hsub, hat⟩ := trimSyncCell_keeps hlinked hlength
    have hrest₁ := hrest.congr (Nat.le_refl brk) hat fun r hr hmem => (haddrs r hmem).2 hr
    obtain ⟨exts', lists', htrims, hlinks, hcells, hslaves, hsubs, hat'⟩ := ih hrest₁
    refine ⟨exts', (x.1, ys) :: lists', ?_, ?_, ?_, ?_, ?_, ?_⟩
    · rw [List.map_cons, trimSyncCells, htrim]
      exact htrims
    · have hcells' : lists'.map (·.1.addr) = lists.map (·.1.addr) := by
        have := congrArg (List.map SyncSlaveCell.addr) hcells
        simpa [List.map_map, Function.comp_def] using this
      rw [planLinks_cons, hcells']
      refine ⟨hlinks, hlinked₁.congr hat' fun r hr => (haddrs r (hsub r hr)).2,
        fun r hr => ⟨(haddrs r (hsub r hr)).1, ?_⟩,
        hcell, hfresh⟩
      exact fun hmem => (haddrs r (hsub r hr)).2 (hsubs r hmem)
    · rw [List.map_cons, List.map_cons, hcells]
    · rw [List.map_cons, List.map_cons, List.map_cons, hslave, hslaves]
    · intro r hr
      rw [planAddrs_cons, List.mem_append] at hr ⊢
      exact hr.imp (hsub r) (hsubs r)
    · refine (hat.mono fun r hr => ?_).trans (hat'.mono fun r hr => ?_)
      · exact List.mem_append_left _ hr
      · exact List.mem_append_right _ hr

/-- The nodes that are built are those of the plan. -/
theorem creatSyncPlan_rep (brk : ℕ) (vars : List ExtData) :
    ∃ plan lists, creatSyncPlan brk vars = some plan ∧ PlanRep plan lists ∧
      lists.map SyncCellList.slave = creatSyncSlaveLink vars := by
  obtain ⟨plan, lists, hadded, hrep, hslaves⟩ := addedSyncPlan_rep brk vars
  obtain ⟨exts', lists', htrim, hlinks, hcells, hslaves', -⟩ :=
    trimSyncCells_keeps hrep.links (Nat.lt_succ_self plan.brk)
  refine ⟨{ plan with exts := exts' }, lists', ?_, ⟨hrep.slaves.trans hcells.symm, hlinks⟩, ?_⟩
  · rw [creatSyncPlan, hadded, Option.bind_some, hrep.slaves, htrim]
    simp only [Option.map_some]
  · rw [hslaves', hslaves, creatSyncSlaveLink]

end DasEdge.VarManage
