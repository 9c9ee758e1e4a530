import DasEdge.Library.DoubleFormat
import DasEdge.VarManage.VarStores

/-!
# When the table agrees with the list

A request changes the list at one place and the table by a name. The two go on agreeing when the
statement reaches the rows of that variable only, the text that is stored reads back as the
variable, there is memory for it, and the list is left in ascending order of the addresses, so that
the sort has nothing to move.
-/

namespace DasEdge.VarManage

open DasEdge.Library DasEdge.Board

/-- The variable that a row is loaded as. -/
def loadRow (env : CJsonEnv) (row : CfgTextRow) : Option ExtDataInfo :=
  row.load.bind fun text => (env.parse text.2).map fun item => jsonParseExtDataInfo env item {}

/-- A row as it is loaded, by its name and its configuration. -/
def describedRow (env : CJsonEnv) (row : CfgTextRow) : Option (String × CJsonItem) :=
  (loadRow env row).map (described env)

/-- The text of a variable reads back as the variable. -/
def ReadsBack (env : CJsonEnv) (info : ExtDataInfo) : Prop :=
  ∃ item, env.parse (env.print (jsonFillExtDataInfo env info)) = some item ∧
    described env (jsonParseExtDataInfo env item {}) = described env info

/-- The rows that a name selects. -/
def selectedRows (selects : String → String → Bool) (name : String) (db : CfgDb) : List CfgTextRow :=
  db.cfgVarext.filter (CfgTextRow.selected selects name)

/-- The addresses ascend, so that the sort has nothing to move. -/
def Ascends (infos : List ExtDataInfo) : Prop := (infos.map (·.xIo.usAddr)).Pairwise (· < ·)

/-- A variable can be stored anew: there is memory, its text reads back, and its name deletes no
variable. -/
def MeetsNew (env : CJsonEnv) (sql : SqlName) (st : VarStores) (room : StoreRoom)
    (info : ExtDataInfo) : Prop :=
  (room.copy ∧ room.object ∧ room.text) ∧ ReadsBack env info ∧
    (selectedRows sql.deletes info.szName st.db).filterMap (describedRow env) = []

/-- A variable can be stored as another one: there is memory, its text reads back, and its old name
updates its row only. -/
def MeetsEdit (env : CJsonEnv) (sql : SqlName) (st : VarStores) (room : StoreRoom)
    (old info : ExtDataInfo) : Prop :=
  (room.copy ∧ room.object ∧ room.text) ∧ ReadsBack env info ∧ sql.updateOk old.szName ∧
    (selectedRows sql.updates old.szName st.db).map (describedRow env) = [some (described env old)]

/-- A name can be deleted: the statement fits into its buffer, and deletes the row of the first
variable of that name, or none if it fails. -/
def MeetsDel (env : CJsonEnv) (sql : SqlName) (fuel : ℕ) (st : VarStores) (name : String) : Prop :=
  let named := fun info : ExtDataInfo => decide (name = info.szName)
  "DELETE FROM cfg_varext WHERE name='".length + name.length + 2 ≤ 256 ∧
    (selectedRows sql.deletes name st.db).filterMap (describedRow env) =
      (if sql.deleteOk name then (((liveInfos fuel st).find? named).map (described env)).toList
      else []) ∧
    Ascends (if sql.deleteOk name then (liveInfos fuel st).eraseP named else liveInfos fuel st)

/-- The requests that leave the table and the list in agreement. -/
def MeetsStores (env : CJsonEnv) (sql : SqlName) (fuel : ℕ) (st : VarStores) : VarRequest → Prop
  | .set pCfg calloc room =>
    let n := pCfg.getInt "n" (-1)
    let infos := liveInfos fuel st
    0 ≤ n →
      if st.list.n < (n + 1).toInt then
        if calloc then
          let info := jsonParseExtDataInfo env pCfg {}
          MeetsNew env sql st room info ∧ Ascends (infos ++ [info])
        else Ascends infos
      else
        match infos[n.toInt.toNat]? with
        | some old =>
          let info := jsonParseExtDataInfo env pCfg old
          MeetsEdit env sql st room old info ∧ Ascends (infos.set n.toInt.toNat info)
        | none => Ascends infos
  | .del pCfg => ∀ name, pCfg.getString "na" = some name → 0 < name.length →
    MeetsDel env sql fuel st name
  | .add call rooms =>
    let made := groupMade fuel st call rooms
    GuardedRun (createVar env sql fuel)
      (fun st made => MeetsNew env sql st made.2 (createdInfo made.1)) st (made.2.zip rooms) ∧
      (made.1 = 0 → Ascends (liveInfos fuel st ++ (made.2.zip rooms).map fun m => createdInfo m.1))

/-- The allocator hands out addresses that are not in use. -/
def FreshRooms (st : VarStores) (rooms : List StoreRoom) : Prop :=
  (rooms.map (·.p)).Nodup ∧ ∀ room ∈ rooms, st.list.heap room.p = none

/-- The allocations of a request. -/
def VarRequest.rooms : VarRequest → List StoreRoom
  | .set _ calloc room => if calloc then [room] else []
  | .del _ => []
  | .add _ rooms => rooms

/-- The list is linked, and each of its nodes carries what it does of its variable. -/
structure VarsListed (st : VarStores) (nodes : List (ℕ × ExtData)) : Prop where
  inv : ExtDataListInv st.list nodes
  payload : ∀ x ∈ nodes, x.2 = listNode (st.info x.1)

/-- The variables of the nodes. -/
def nodeInfos (st : VarStores) (nodes : List (ℕ × ExtData)) : List ExtDataInfo :=
  nodes.map fun x => st.info x.1

/-- The database is open, the list is linked, and the rows of the table are its variables. -/
structure StoresInv (env : CJsonEnv) (st : VarStores) (nodes : List (ℕ × ExtData)) : Prop where
  listed : VarsListed st nodes
  opened : st.db.sCfgDbinit = true
  agree : (st.db.cfgVarext.filterMap (describedRow env)).Perm ((nodeInfos st nodes).map (described env))

section Listed

variable {env : CJsonEnv} {sql : SqlName} {fuel : ℕ} {st : VarStores} {nodes : List (ℕ × ExtData)}

/-- The variables of the list are those of its nodes. -/
theorem VarsListed.liveInfos_eq (hlisted : VarsListed st nodes) (hfuel : nodes.length ≤ fuel) :
    liveInfos fuel st = nodeInfos st nodes := by
  obtain ⟨last, hseg⟩ := hlisted.inv.linked.linked
  rw [liveInfos, linkedNodes_eq hfuel hseg, nodeInfos]

/-- The agreement of the stores, by the rows and the nodes. -/
theorem storesAgree_iff (hlisted : VarsListed st nodes) (hopened : st.db.sCfgDbinit = true)
    (hfuel : nodes.length ≤ fuel) :
    StoresAgree env fuel st ↔ (st.db.cfgVarext.filterMap (describedRow env)).Perm
      ((nodeInfos st nodes).map (described env)) := by
  have hloaded : (loadedInfos env st.db).map (described env) =
      st.db.cfgVarext.filterMap (describedRow env) := by
    rw [loadedInfos, boardCfgVarextLoadlist, if_pos hopened, List.filterMap_filterMap,
      List.map_filterMap]
    rfl
  rw [StoresAgree, hloaded, hlisted.liveInfos_eq hfuel]

/-- A list in ascending order is left alone by the sort. -/
theorem sortVars_eq (hlisted : VarsListed st nodes) (hascend : Ascends (nodeInfos st nodes))
    (hfuel : nodes.length < fuel) :
    sortVars fuel st = some st := by
  obtain ⟨last, hseg⟩ := hlisted.inv.linked.linked
  have hsort : SortsAscending fuel st.list .sort := by
    rw [SortsAscending, StrictlyAscending, linkSeg_linkedData fuel hfuel.le hseg, List.pairwise_map]
    rw [Ascends, nodeInfos, List.map_map, List.pairwise_map] at hascend
    refine hascend.imp_of_mem fun {x y} hx hy hlt => ?_
    rw [hlisted.payload x hx, hlisted.payload y hy]
    exact hlt
  rw [sortVars, sortExtdataLink_eq hlisted.inv hfuel hsort]
  rfl

/-- A new node at the end of the list. -/
theorem insertVar_listed {p : ℕ} (info : ExtDataInfo) (hlisted : VarsListed st nodes)
    (hfuel : nodes.length < fuel)
    (hfresh : st.list.heap p = none) :
    ∃ st', insertVar fuel st p info = some st' ∧ VarsListed st' (nodes ++ [(p, listNode info)]) ∧
      st'.db = st.db ∧
      st'.info = Function.update st.info p info := by
  obtain ⟨list', hinsert, hinv⟩ := insertNode_keeps (listNode info) hlisted.inv hfuel hfresh
  have hp : p ∉ nodes.map Prod.fst := by
    rw [← hlisted.inv.alloc, hfresh]
    exact Bool.false_ne_true
  refine ⟨⟨list', Function.update st.info p info, st.db⟩, by rw [insertVar, hinsert]; rfl,
    ⟨hinv, fun x hx => ?_⟩, rfl, rfl⟩
  rcases List.mem_append.mp hx with hx | hx
  · have hne : x.1 ≠ p := fun heq => hp (heq ▸ List.mem_map_of_mem hx)
    change x.2 = listNode (Function.update st.info p info x.1)
    rw [Function.update_of_ne hne]
    exact hlisted.payload x hx
  · rw [List.mem_singleton.mp hx]
    exact congrArg listNode (Function.update_self p info st.info).symm

/-- A node of the list gets another configuration. -/
theorem writeVar_listed {xs ys : List (ℕ × ExtData)} {p : ℕ} {d : ExtData} (info : ExtDataInfo)
    (hlisted : VarsListed st (xs ++ (p, d) :: ys)) :
    ∃ st', writeVar st p info = some st' ∧ VarsListed st' (xs ++ (p, listNode info) :: ys) ∧
      st'.db = st.db ∧
      st'.info = Function.update st.info p info := by
  obtain ⟨h', hset, hlinked, hsome, -⟩ := hlisted.inv.linked.setData (listNode info)
  obtain ⟨hxs, hys⟩ := hlisted.inv.linked.disjoint
  refine ⟨⟨{ st.list with heap := h' }, Function.update st.info p info, st.db⟩, by
    rw [writeVar, hset]; rfl,
    ⟨⟨hlinked, ?_, fun r => ?_⟩, fun x hx => ?_⟩, rfl, rfl⟩
  · have hcount := hlisted.inv.count
    simpa using hcount
  · rw [hsome, hlisted.inv.alloc]
    simp
  · have hold {x : ℕ × ExtData} (hx : x ∈ xs ++ (p, d) :: ys) (hne : x.1 ≠ p) :
        x.2 = listNode (Function.update st.info p info x.1) := by
      rw [Function.update_of_ne hne]
      exact hlisted.payload x hx
    rcases List.mem_append.mp hx with hx | hx
    · exact hold (List.mem_append_left _ hx) fun heq => hxs (heq ▸ List.mem_map_of_mem hx)
    · rcases List.mem_cons.mp hx with rfl | hx
      · exact congrArg listNode (Function.update_self p info st.info).symm
      · exact hold (List.mem_append_right _ (List.mem_cons_of_mem _ hx)) fun heq =>
          hys (heq ▸ List.mem_map_of_mem hx)

/-- The variables of nodes other than the one that is written. -/
theorem nodeInfos_update {st' : VarStores} {p : ℕ} {info : ExtDataInfo}
    (hinfo : st'.info = Function.update st.info p info)
    (hp : p ∉ nodes.map Prod.fst) : nodeInfos st' nodes = nodeInfos st nodes := by
  refine List.map_congr_left fun x hx => ?_
  rw [hinfo]
  exact Function.update_of_ne (fun heq : x.1 = p => hp (heq ▸ List.mem_map_of_mem hx)) _ _

/-- The text of a variable that reads back is stored in a row that is loaded as the variable. -/
theorem describedRow_stored {room : StoreRoom} {info : ExtDataInfo} (htext : room.text)
    (hread : ReadsBack env info) (time : ℤ) :
    describedRow env ⟨time, some info.szName, storedText env room info⟩ =
      some (described env info) := by
  obtain ⟨item, hparse, hdescribed⟩ := hread
  rw [describedRow, loadRow, CfgTextRow.load, storedText, if_pos htext]
  simp only [Option.bind_some, Option.map_some, hparse, hdescribed]

/-- What is loaded of the rows, with the selected ones first. -/
theorem describedRows_split (selects : String → String → Bool) (name : String)
    (hstores : StoresInv env st nodes) :
    ((selectedRows selects name st.db).filterMap (describedRow env) ++
      (sqlDelete (CfgTextRow.selected selects name) st.db.cfgVarext).filterMap (describedRow env)).Perm
        ((nodeInfos st nodes).map (described env)) := by
  rw [← List.filterMap_append]
  exact ((sqlDelete_perm _ st.db.cfgVarext).filterMap _).trans hstores.agree

/-- Storing a variable anew puts one row behind those that its name leaves. -/
theorem varextAdd_eq {room : StoreRoom} {info : ExtDataInfo} (hopened : st.db.sCfgDbinit = true)
    (hcopy : room.copy) (hobject : room.object) :
    varextAdd env sql room info st.db =
      { st.db with cfgVarext := sqlDelete (CfgTextRow.selected sql.deletes info.szName) st.db.cfgVarext ++
          [⟨room.time, some info.szName, storedText env room info⟩] } := by
  rw [varextAdd, if_pos hcopy, boardCfgVarextAdd, if_pos hopened, cfgTextAdd, if_pos hobject]
  rfl

/-- The variables behind which a node is put. -/
theorem nodeInfos_added {st' : VarStores} {p : ℕ} {info : ExtDataInfo}
    (hlisted : VarsListed st' (nodes ++ [(p, listNode info)]))
    (hinfo : st'.info = Function.update st.info p info) :
    nodeInfos st' (nodes ++ [(p, listNode info)]) = nodeInfos st nodes ++ [info] := by
  have hp : p ∉ nodes.map Prod.fst := by
    have hnodup := hlisted.inv.linked.nodup
    rw [List.map_append, List.nodup_append] at hnodup
    exact fun hmem => hnodup.2.2 p hmem p (List.mem_singleton_self p) rfl
  rw [nodeInfos, List.map_append]
  refine congrArg₂ _ (nodeInfos_update hinfo hp) ?_
  rw [hinfo]
  simp

/-- A variable that is put at the end of the list and stored keeps the agreement. -/
theorem StoresInv.stored {st' : VarStores} {room : StoreRoom} {info : ExtDataInfo} {p : ℕ}
    (hstores : StoresInv env st nodes)
    (hmeets : MeetsNew env sql st room info) (hlisted : VarsListed st' (nodes ++ [(p, listNode info)]))
    (hdb : st'.db = st.db) (hinfo : st'.info = Function.update st.info p info) :
    StoresInv env { st' with db := varextAdd env sql room info st'.db }
      (nodes ++ [(p, listNode info)]) := by
  obtain ⟨⟨hcopy, hobject, htext⟩, hread, hselects⟩ := hmeets
  have hsplit := describedRows_split sql.deletes info.szName hstores
  rw [hselects, List.nil_append] at hsplit
  rw [hdb, varextAdd_eq hstores.opened hcopy hobject]
  refine ⟨⟨hlisted.inv, hlisted.payload⟩, hstores.opened, ?_⟩
  change (List.filterMap _ (_ ++ _)).Perm
    ((nodeInfos st' (nodes ++ [(p, listNode info)])).map (described env))
  rw [nodeInfos_added hlisted hinfo, List.filterMap_append, List.map_append]
  refine hsplit.append ?_
  simp [describedRow_stored htext hread]

/-- A variable of a group is created in agreement. -/
theorem createVar_keeps {made : ExtDataCfg × StoreRoom} (hstores : StoresInv env st nodes)
    (hfuel : nodes.length < fuel)
    (hfresh : made.2.p ∉ nodes.map Prod.fst)
    (hmeets : MeetsNew env sql st made.2 (createdInfo made.1)) :
    ∃ st', createVar env sql fuel st made = some ((), st') ∧
      StoresInv env st' (nodes ++ [(made.2.p, listNode (createdInfo made.1))]) ∧
      nodeInfos st' (nodes ++ [(made.2.p, listNode (createdInfo made.1))]) = nodeInfos st nodes ++
      [createdInfo made.1] := by
  have hnone : st.list.heap made.2.p = none := by
    rwa [← hstores.listed.inv.alloc, Bool.not_eq_true, Option.isSome_eq_false_iff,
      Option.isNone_iff_eq_none] at hfresh
  obtain ⟨st', hinsert, hlisted, hdb, hinfo⟩ :=
    insertVar_listed (createdInfo made.1) hstores.listed hfuel hnone
  exact ⟨_, by rw [createVar, hinsert]; rfl, hstores.stored hmeets hlisted hdb hinfo,
    (nodeInfos_added hlisted hinfo :)⟩

/-- The variables of a group are created in agreement, one after another. -/
theorem createVars_keep (made : List (ExtDataCfg × StoreRoom)) (hstores : StoresInv env st nodes)
    (hfuel : nodes.length + made.length < fuel) (hnodup : (made.map (·.2.p)).Nodup)
    (hfresh : ∀ m ∈ made, m.2.p ∉ nodes.map Prod.fst)
    (hmeets : GuardedRun (createVar env sql fuel)
      (fun st made => MeetsNew env sql st made.2 (createdInfo made.1)) st made) :
    ∃ outs st' nodes', runBlocking (createVar env sql fuel) st made = some (outs, st') ∧
      StoresInv env st' nodes' ∧
      nodes'.length = nodes.length + made.length ∧
      nodeInfos st' nodes' = nodeInfos st nodes ++ made.map fun m => createdInfo m.1 := by
  induction made generalizing st nodes with
  | nil => exact ⟨[], st, nodes, rfl, hstores, rfl, (List.append_nil _).symm⟩
  | cons m made ih =>
    obtain ⟨hhead, htail⟩ := hmeets
    obtain ⟨hm, hnodup⟩ := List.nodup_cons.mp hnodup
    obtain ⟨hmFresh, hfresh⟩ := List.forall_mem_cons.mp hfresh
    rw [List.length_cons] at hfuel
    have hroom : nodes.length < fuel := by omega
    obtain ⟨st₁, hcreate, hstores₁, hinfos₁⟩ := createVar_keeps hstores hroom hmFresh hhead
    rw [hcreate] at htail
    have hfresh₁ : ∀ other ∈ made, other.2.p ∉
        (nodes ++ [(m.2.p, listNode (createdInfo m.1))]).map Prod.fst := by
      intro other hother hmem
      rw [List.map_append, List.mem_append] at hmem
      rcases hmem with hmem | hmem
      · exact hfresh other hother hmem
      · have heq : other.2.p = m.2.p := List.mem_singleton.mp hmem
        refine hm ?_
        change m.2.p ∈ made.map (·.2.p)
        rw [← heq]
        exact List.mem_map_of_mem hother
    have hlen : (nodes ++ [(m.2.p, listNode (createdInfo m.1))]).length = nodes.length + 1 := by simp
    obtain ⟨outs, st', nodes', hrun, hstores', hlen', hinfos'⟩ :=
      ih hstores₁ (by omega) hnodup hfresh₁ htail
    refine ⟨() :: outs, st', nodes', ?_, hstores', ?_, ?_⟩
    · rw [runBlocking, hcreate, Option.bind_some, hrun]
      rfl
    · rw [List.length_cons]
      omega
    · rw [hinfos', hinfos₁, List.map_cons, List.append_assoc]
      rfl

/-- The node at a position. -/
theorem nodeAt_eq {h : LinkHeap ExtData} {prev start last : Option ℕ} (n : ℕ)
    (hseg : LinkSeg h prev start nodes last none) :
    nodeAt h n start = some (nodes[n]?.map Prod.fst) := by
  induction nodes generalizing prev start n with
  | nil =>
    obtain ⟨-, rfl⟩ := hseg
    cases n <;> rfl
  | cons x nodes ih =>
    obtain ⟨rfl, next, hnode, hrest⟩ := hseg
    cases n with
    | zero => rfl
    | succ n =>
      rw [nodeAt, hnode, Option.bind_eq_bind, Option.bind_some, ih n hrest]
      rfl

/-- Without the first node of a name the list stays linked. -/
theorem removeVar_listed (name : String) (hlisted : VarsListed st nodes) (hfuel : nodes.length < fuel) :
    ∃ freed list' nodes', removeNodeWithName fuel st.list name = some (freed, list') ∧
      ExtDataListInv list' nodes' ∧
      nodes'.Sublist nodes ∧ nodeInfos st nodes' = (nodeInfos st nodes).eraseP fun info => name =
        info.szName := by
  obtain ⟨freed, list', nodes', hremove, hinv', hlive⟩ :=
    removeNodeWithName_keeps name hlisted.inv hfuel
  refine ⟨freed, list', nodes', hremove, hinv', ?_⟩
  obtain ⟨last, hseg⟩ := hlisted.inv.linked.linked
  have hfreed : freed = (nodes.find? fun x => name = x.2.szName).map Prod.fst := by
    rw [removeNodeWithName, getExtDataWithName_eq name fuel hfuel hseg] at hremove
    cases hget : nodes.find? fun x => name = x.2.szName with
    | none =>
      rw [hget] at hremove
      exact (congrArg Prod.fst (Option.some.inj hremove)).symm
    | some x =>
      rw [hget] at hremove
      simp only [Option.map_some, Option.bind_eq_bind, Option.bind_some, Option.bind_eq_some_iff,
        Option.some.injEq,
        Prod.mk.injEq] at hremove
      obtain ⟨-, -, -, -, -, -, hfst, -⟩ := hremove
      exact hfst.symm
  have hname {x : ℕ × ExtData} (hx : x ∈ nodes) : (st.info x.1).szName = x.2.szName := by
    rw [hlisted.payload x hx]
    rfl
  cases hget : nodes.find? fun x => name = x.2.szName with
  | none =>
    rw [hfreed, hget] at hlive
    obtain rfl : nodes' = nodes := hlive
    refine ⟨List.Sublist.refl _, (List.eraseP_of_forall_not fun info hinfo => ?_).symm⟩
    obtain ⟨x, hx, rfl⟩ := List.mem_map.mp hinfo
    rw [hname hx]
    exact List.find?_eq_none.mp hget x hx
  | some x =>
    obtain ⟨hx, xs, ys, rfl, hbefore⟩ := List.find?_eq_some_iff_append.mp hget
    rw [hfreed, hget] at hlive
    obtain rfl : nodes' = xs ++ ys := hlive.trans (filter_ne_middle hlisted.inv.linked.nodup)
    refine ⟨(List.sublist_cons_self x ys).append_left xs, ?_⟩
    rw [nodeInfos, nodeInfos, List.map_append, List.map_append, List.map_cons,
      List.eraseP_append_right, List.eraseP_cons_of_pos]
    · rwa [hname (by simp)]
    · intro info hinfo
      obtain ⟨y, hy, rfl⟩ := List.mem_map.mp hinfo
      rw [hname (List.mem_append_left _ hy)]
      simpa using hbefore y hy

/-- The first one that passes a test, and the others. -/
theorem find?_append_eraseP {α : Type*} (test : α → Bool) (xs : List α) :
    ((xs.find? test).toList ++ xs.eraseP test).Perm xs := by
  induction xs with
  | nil => exact .refl _
  | cons x xs ih =>
    cases hx : test x with
    | true => rw [List.find?_cons_of_pos hx, List.eraseP_cons_of_pos hx]; exact .refl _
    | false =>
      rw [List.find?_cons_of_neg (by simp [hx]), List.eraseP_cons_of_neg (by simp [hx])]
      exact List.perm_middle.trans (ih.cons x)

/-- A name is deleted in agreement. -/
theorem delVar_keeps {pCfg : CJsonItem} (hstores : StoresInv env st nodes) (hfuel : nodes.length < fuel)
    (hmeets : ∀ name, pCfg.getString "na" = some name → 0 < name.length →
      MeetsDel env sql fuel st name) :
    ∃ st' nodes', delVarManageExtData sql fuel st pCfg = some st' ∧ StoresInv env st' nodes' ∧
      nodes'.length ≤ nodes.length := by
  rw [delVarManageExtData]
  cases hname : pCfg.getString "na" with
  | none => exact ⟨st, nodes, rfl, hstores, le_rfl⟩
  | some name =>
    by_cases hlen : 0 < name.length
    · obtain ⟨hfits, hselected, hascend⟩ := hmeets name hname hlen
      rw [hstores.listed.liveInfos_eq hfuel.le] at hselected hascend
      have hsplit := describedRows_split sql.deletes name hstores
      rw [hselected] at hsplit
      simp only [if_pos hlen, varextDel, if_pos hstores.opened, if_neg (Nat.not_lt.mpr hfits),
        Option.bind_eq_bind, Option.bind_some]
      set rows := sqlDelete (CfgTextRow.selected sql.deletes name) st.db.cfgVarext
      cases hok : sql.deleteOk name with
      | false =>
        rw [hok] at hsplit hascend
        have hlisted : VarsListed ⟨st.list, st.info, { st.db with cfgVarext := rows }⟩ nodes :=
          ⟨hstores.listed.inv, hstores.listed.payload⟩
        exact ⟨_, nodes, sortVars_eq hlisted hascend hfuel, ⟨hlisted, hstores.opened, hsplit⟩, le_rfl⟩
      | true =>
        obtain ⟨freed, list', nodes', hremove, hinv, hsub, hinfos⟩ :=
          removeVar_listed name hstores.listed hfuel
        rw [hok, if_pos rfl, ← hinfos] at hascend
        have hlisted : VarsListed ⟨list', st.info, { st.db with cfgVarext := rows }⟩ nodes' :=
          ⟨hinv, fun x hx => hstores.listed.payload x (hsub.subset hx)⟩
        have hlen' := hsub.length_le
        refine ⟨_, nodes', ?_, ⟨hlisted, hstores.opened, ?_⟩, hlen'⟩
        · simp only [if_true, hremove, Option.map_some, Option.bind_some]
          exact sortVars_eq hlisted hascend (by omega)
        · rw [hok, if_pos rfl, Option.toList_map] at hsplit
          have hfirst :=
            (find?_append_eraseP (fun info : ExtDataInfo => decide (name = info.szName))
            (nodeInfos st nodes)).map (described env)
          rw [← hinfos, List.map_append] at hfirst
          exact (List.perm_append_left_iff _).mp (hsplit.trans hfirst.symm)
    · exact ⟨st, nodes, by simp only [if_neg hlen], hstores, le_rfl⟩

/-- A new variable is added in agreement. -/
theorem newVar_keeps {room : StoreRoom} {info : ExtDataInfo} (hstores : StoresInv env st nodes)
    (hfuel : nodes.length + 1 < fuel)
    (hfresh : st.list.heap room.p = none) (hmeets : MeetsNew env sql st room info)
    (hascend : Ascends (nodeInfos st nodes ++ [info])) :
    ∃ st₁ st₂, insertVar fuel st room.p {} = some st₁ ∧ writeVar st₁ room.p info = some st₂ ∧
      (let st' := { st₂ with db := varextAdd env sql room info st₂.db }
       sortVars fuel st' = some st' ∧ StoresInv env st' (nodes ++ [(room.p, listNode info)])) := by
  obtain ⟨st₁, hinsert, hlisted₁, hdb₁, hinfo₁⟩ :=
    insertVar_listed {} hstores.listed (Nat.lt_of_succ_lt hfuel) hfresh
  obtain ⟨st₂, hwrite, hlisted₂, hdb₂, hinfo₂⟩ := writeVar_listed info hlisted₁
  rw [hinfo₁, Function.update_idem] at hinfo₂
  have hstores' := hstores.stored hmeets hlisted₂ (hdb₂.trans hdb₁) hinfo₂
  refine ⟨st₁, st₂, hinsert, hwrite, sortVars_eq hstores'.listed ?_ (by simpa using hfuel), hstores'⟩
  exact (nodeInfos_added hlisted₂ hinfo₂).symm ▸ hascend

/-- A variable that is stored in place of another one replaces it in what is loaded of the rows. -/
theorem varextUpdate_perm {room : StoreRoom} {info old : ExtDataInfo}
    {before after : List (String × CJsonItem)}
    (hopened : st.db.sCfgDbinit = true) (hmeets : MeetsEdit env sql st room old info)
    (hagree : (st.db.cfgVarext.filterMap (describedRow env)).Perm
      (before ++ described env old :: after)) :
    (varextUpdate env sql room old.szName info st.db).sCfgDbinit = true ∧
      ((varextUpdate env sql room old.szName info st.db).cfgVarext.filterMap (describedRow env)).Perm
        (before ++ described env info :: after) := by
  obtain ⟨⟨hcopy, hobject, htext⟩, hread, hok, hselected⟩ := hmeets
  obtain ⟨row, hrow, hold⟩ := List.map_eq_singleton_iff.mp hselected
  rw [selectedRows] at hrow
  rw [varextUpdate, if_pos ⟨hcopy, hopened, hobject, hok⟩]
  refine ⟨hopened, ?_⟩
  have hrest :=
    (((sqlDelete_perm (CfgTextRow.selected sql.updates old.szName) st.db.cfgVarext).filterMap
    _).trans hagree).trans
    List.perm_middle
  rw [hrow, List.filterMap_append, List.filterMap_cons_some hold] at hrest
  refine ((sqlUpdate_perm (CfgTextRow.selected sql.updates old.szName) _ st.db.cfgVarext).filterMap
    _).trans ?_
  rw [hrow, List.map_singleton, List.filterMap_append,
    List.filterMap_cons_some (describedRow_stored htext hread row.time)]
  exact ((List.perm_cons _).mp hrest).cons _ |>.trans List.perm_middle.symm

/-- A variable is edited in agreement. -/
theorem oldVar_keeps {room : StoreRoom} {info : ExtDataInfo} {xs ys : List (ℕ × ExtData)} {p : ℕ}
    {d : ExtData}
    (hstores : StoresInv env st (xs ++ (p, d) :: ys)) (hfuel : (xs ++ (p, d) :: ys).length < fuel)
    (hmeets : MeetsEdit env sql st room (st.info p) info)
    (hascend : Ascends (nodeInfos st xs ++ info :: nodeInfos st ys)) :
    ∃ st₁, writeVar st p info = some st₁ ∧
      (let st' := { st₁ with db := varextUpdate env sql room (st.info p).szName info st₁.db }
       sortVars fuel st' = some st' ∧ StoresInv env st' (xs ++ (p, listNode info) :: ys)) := by
  obtain ⟨st₁, hwrite, hlisted, hdb, hinfo⟩ := writeVar_listed info hstores.listed
  obtain ⟨hxs, hys⟩ := hstores.listed.inv.linked.disjoint
  have hinfos : nodeInfos st₁ (xs ++ (p, listNode info) :: ys) = nodeInfos st xs ++ info ::
      nodeInfos st ys := by
    rw [nodeInfos, List.map_append, List.map_cons]
    refine congrArg₂ _ (nodeInfos_update hinfo hxs) (congrArg₂ _ ?_ (nodeInfos_update hinfo hys))
    rw [hinfo]
    exact Function.update_self ..
  have hagree := hstores.agree
  rw [nodeInfos, List.map_append, List.map_cons, List.map_append, List.map_cons] at hagree
  obtain ⟨hopened, hperm⟩ := varextUpdate_perm hstores.opened hmeets hagree
  rw [← hdb] at hopened hperm
  refine ⟨st₁, hwrite,
    sortVars_eq ⟨hlisted.inv, hlisted.payload⟩ (hinfos.symm ▸ hascend) (by simpa using hfuel),
    ⟨hlisted.inv, hlisted.payload⟩, hopened, ?_⟩
  change (List.filterMap _ _).Perm
    ((nodeInfos st₁ (xs ++ (p, listNode info) :: ys)).map (described env))
  rwa [hinfos, List.map_append, List.map_cons]

/-- A request to set a variable keeps the agreement. -/
theorem setVar_keeps {pCfg : CJsonItem} {calloc : Bool} {room : StoreRoom}
    (hstores : StoresInv env st nodes)
    (hfuel : nodes.length + (VarRequest.set pCfg calloc room).rooms.length < fuel)
    (hfresh : FreshRooms st (VarRequest.set pCfg calloc room).rooms)
    (hmeets : MeetsStores env sql fuel st (.set pCfg calloc room)) :
    ∃ st' nodes', setVarManageExtDataWithJson env sql fuel st pCfg calloc room = some st' ∧
      StoresInv env st' nodes' ∧
      nodes'.length ≤ nodes.length + (VarRequest.set pCfg calloc room).rooms.length := by
  have hroom : nodes.length ≤ fuel := by omega
  have hlive := hstores.listed.liveInfos_eq hroom
  have hsame (hascend : Ascends (nodeInfos st nodes)) : sortVars fuel st = some st :=
    sortVars_eq hstores.listed hascend (by omega)
  simp only [setVarManageExtDataWithJson]
  simp only [MeetsStores, hlive] at hmeets
  by_cases hn : 0 ≤ pCfg.getInt "n" (-1)
  · specialize hmeets hn
    rw [if_pos hn]
    by_cases hnew : st.list.n < (pCfg.getInt "n" (-1) + 1).toInt
    · rw [if_pos hnew] at hmeets ⊢
      cases calloc with
      | false => exact ⟨st, nodes, hsame hmeets, hstores, Nat.le_add_right _ _⟩
      | true =>
        obtain ⟨hmeets, hascend⟩ := hmeets
        obtain ⟨st₁, st₂, hinsert, hwrite, hsort, hstores'⟩ :=
          newVar_keeps hstores hfuel (hfresh.2 room List.mem_cons_self) hmeets hascend
        refine ⟨_, _, ?_, hstores', by simp [VarRequest.rooms]⟩
        simp only [if_true, Option.bind_eq_bind, hinsert, Option.bind_some, hwrite]
        exact hsort
    · rw [if_neg hnew] at hmeets ⊢
      obtain ⟨last, hseg⟩ := hstores.listed.inv.linked.linked
      rw [nodeAt_eq _ hseg, Option.bind_eq_bind, Option.bind_some]
      rw [nodeInfos, List.getElem?_map] at hmeets
      cases hnode : nodes[(pCfg.getInt "n" (-1)).toInt.toNat]? with
      | none =>
        rw [hnode] at hmeets
        exact ⟨st, nodes, hsame hmeets, hstores, Nat.le_add_right _ _⟩
      | some x =>
        rw [hnode] at hmeets
        obtain ⟨hmeets, hascend⟩ := hmeets
        obtain ⟨hlt, hx⟩ := List.getElem?_eq_some_iff.mp hnode
        set n := (pCfg.getInt "n" (-1)).toInt.toNat
        have hsplit : nodes = nodes.take n ++ x :: nodes.drop (n + 1) := by
          rw [← hx, List.getElem_cons_drop, List.take_append_drop]
        rw [List.set_eq_take_append_cons_drop, if_pos (by simpa using hlt), ← List.map_take,
          ← List.map_drop] at hascend
        obtain ⟨st₁, hwrite, hsort, hstores'⟩ :=
          oldVar_keeps (hsplit ▸ hstores) (hsplit ▸ Nat.lt_of_le_of_lt (Nat.le_add_right _ _) hfuel)
            hmeets hascend
        refine ⟨_, _, ?_, hstores', ?_⟩
        · simp only [Option.map_some, Option.bind_eq_bind, hwrite, Option.bind_some]
          exact hsort
        · simp only [List.length_append, List.length_take, List.length_cons, List.length_drop]
          omega
  · rw [if_neg hn]
    exact ⟨st, nodes, rfl, hstores, Nat.le_add_right _ _⟩

/-- The rooms that the variables of a group take. -/
theorem map_snd_zip_sublist {α β : Type*} (vars : List α) (rooms : List β) :
    ((vars.zip rooms).map Prod.snd).Sublist rooms := by
  induction vars generalizing rooms with
  | nil => exact List.nil_sublist rooms
  | cons v vars ih =>
    cases rooms with
    | nil => exact .slnil
    | cons room rooms => exact (ih rooms).cons_cons room

/-- A request to create a group keeps the agreement. -/
theorem addGroup_keeps {call : GroupCall} {rooms : List StoreRoom} (hstores : StoresInv env st nodes)
    (hfuel : nodes.length + rooms.length < fuel) (hfresh : FreshRooms st rooms)
    (hmeets : MeetsStores env sql fuel st (.add call rooms)) :
    ∃ st' nodes', createGroup env sql fuel st (groupMade fuel st call rooms) rooms = some st' ∧
      StoresInv env st' nodes' ∧
      nodes'.length ≤ nodes.length + rooms.length := by
  obtain ⟨hcreated, hascend⟩ := hmeets
  set made := groupMade fuel st call rooms
  have hsub := map_snd_zip_sublist made.2 rooms
  have hlen : (made.2.zip rooms).length ≤ rooms.length := by simp
  have hnodup : ((made.2.zip rooms).map (·.2.p)).Nodup := by
    have hrooms := hfresh.1.sublist (hsub.map (·.p))
    rwa [List.map_map] at hrooms
  have hunused : ∀ m ∈ made.2.zip rooms, m.2.p ∉ nodes.map Prod.fst := by
    intro m hm
    rw [← hstores.listed.inv.alloc, hfresh.2 m.2 (hsub.subset (List.mem_map_of_mem hm))]
    exact Bool.false_ne_true
  obtain ⟨outs, st', nodes', hrun, hstores', hlen', hinfos⟩ :=
    createVars_keep (made.2.zip rooms) hstores (by omega) hnodup hunused hcreated
  refine ⟨st', nodes', ?_, hstores', by omega⟩
  rw [createGroup, hrun, Option.bind_some]
  split
  · next hzero =>
    have hroom : nodes.length ≤ fuel := by omega
    rw [hstores.listed.liveInfos_eq hroom] at hascend
    exact sortVars_eq hstores'.listed (hinfos.symm ▸ hascend hzero) (by omega)
  · rfl

/-- One request keeps the agreement. -/
theorem varRequest_keeps {req : VarRequest} (hstores : StoresInv env st nodes)
    (hfuel : nodes.length + req.rooms.length < fuel)
    (hfresh : FreshRooms st req.rooms) (hmeets : MeetsStores env sql fuel st req) :
    ∃ st' nodes', varRequest env sql fuel st req = some ((), st') ∧ StoresInv env st' nodes' ∧
      nodes'.length ≤ nodes.length + req.rooms.length := by
  cases req with
  | set pCfg calloc room =>
    obtain ⟨st', nodes', hset, hkeeps⟩ := setVar_keeps hstores hfuel hfresh hmeets
    exact ⟨st', nodes', by rw [varRequest, hset]; rfl, hkeeps⟩
  | del pCfg =>
    obtain ⟨st', nodes', hdel, hkeeps⟩ := delVar_keeps hstores hfuel hmeets
    exact ⟨st', nodes', by rw [varRequest, hdel]; rfl, hkeeps⟩
  | add call rooms =>
    have hroom : nodes.length + rooms.length < fuel := hfuel
    obtain ⟨st', nodes', hadd, hkeeps⟩ := addGroup_keeps hstores hroom hfresh hmeets
    exact ⟨st', nodes', by rw [varRequest, hadd]; rfl, hkeeps⟩

/-- After each request of a run that meets the conditions, the table agrees with the list. -/
theorem storesAgree_run {reqs : List VarRequest} (hlisted : VarsListed st nodes)
    (hopened : st.db.sCfgDbinit = true)
    (hagree : StoresAgree env fuel st)
    (hfuel : nodes.length + (reqs.map fun req => req.rooms.length).sum < fuel)
    (hfresh : GuardedRun (varRequest env sql fuel) (fun st req => FreshRooms st req.rooms) st reqs)
    (hmeets : GuardedRun (varRequest env sql fuel) (MeetsStores env sql fuel) st reqs) (k : ℕ) :
    ∃ outs st', runBlocking (varRequest env sql fuel) st (reqs.take k) = some (outs, st') ∧
      StoresAgree env fuel st' := by
  induction reqs generalizing st nodes k with
  | nil => exact ⟨[], st, by rw [List.take_nil, runBlocking], hagree⟩
  | cons req reqs ih =>
    cases k with
    | zero => exact ⟨[], st, rfl, hagree⟩
    | succ k =>
      rw [List.map_cons, List.sum_cons] at hfuel
      obtain ⟨hfreshHead, hfresh⟩ := hfresh
      obtain ⟨hmeetsHead, hmeets⟩ := hmeets
      have hroom : nodes.length ≤ fuel := by omega
      have hstores : StoresInv env st nodes :=
        ⟨hlisted, hopened, (storesAgree_iff hlisted hopened hroom).mp hagree⟩
      obtain ⟨st₁, nodes₁, hstep, hstores₁, hlen₁⟩ :=
        varRequest_keeps hstores (by omega) hfreshHead hmeetsHead
      rw [hstep] at hfresh hmeets
      have hroom₁ : nodes₁.length ≤ fuel := by omega
      have hagree₁ := (storesAgree_iff hstores₁.listed hstores₁.opened hroom₁).mpr hstores₁.agree
      obtain ⟨outs, st', hrun, hend⟩ :=
        ih hstores₁.listed hstores₁.opened hagree₁ (by omega) hfresh hmeets k
      refine ⟨() :: outs, st', ?_, hend⟩
      rw [List.take_succ_cons, runBlocking, hstep, Option.bind_some, hrun]
      rfl

end Listed

mutual
/-- The text of an item whose numbers are integers and whose texts need no escape. -/
def printPlain : CJsonItem → String
  | .null => "null"
  | .bool b => toString b
  | .number n _ => toString n
  | .string s => "\"" ++ s ++ "\""
  | .array items => "[" ++ ",".intercalate (printItems items) ++ "]"
  | .object items => "\x7b" ++ ",".intercalate (printFields items) ++ "\x7d"

/-- The texts of the items of an array. -/
def printItems : List CJsonItem → List String
  | [] => []
  | item :: items => printPlain item :: printItems items

/-- The text of a field. -/
def printField : String × CJsonItem → String
  | (key, item) => "\"" ++ key ++ "\":" ++ printPlain item

/-- The texts of the fields of an object. -/
def printFields : List (String × CJsonItem) → List String
  | [] => []
  | field :: fields => printField field :: printFields fields
end

/-- Numbers as a board converts them; the text of one item is read. -/
def plainEnv (item : CJsonItem) : CJsonEnv where
  ofInt := encodeInt
  toInt d := Int32.ofInt (decodeInt d)
  ofFloat := widen
  toFloat := narrow
  print := printPlain
  parse text := if text = printPlain item then some item else none

/-- Names without a quote. -/
def plainSql : SqlName where
  deleteOk _ := true
  deletes name row := name = row
  updateOk _ := true
  updates name row := name = row

/-- No variables, and a table without rows. -/
def emptyStores : VarStores where
  list := { heap := fun _ => none, n := 0, pList := none }
  info _ := {}
  db := { sCfgDbinit := true, cfgBoard := [], cfgVarext := [], cfgRule := [] }

/-- A request to set the variable at a position. -/
def namedVar (n : Int32) (addr : Int32) : CJsonItem :=
  .object [("n", .number n (encodeInt n.toInt)), ("na", .string "a"),
    ("io", .object [("ad", .number addr (encodeInt addr.toInt))])]

/-- Memory for everything. -/
def plainRoom (p : ℕ) : StoreRoom := { p := p, copy := true, object := true, text := true, time := 0 }


/-- What is stored of the variable that is added first. -/
def firstItem : CJsonItem :=
  jsonFillExtDataInfo (plainEnv .null) (jsonParseExtDataInfo (plainEnv .null) (namedVar 0 1024) {})

/-- It is read as the variable. -/
theorem firstItem_reads :
    jsonParseExtDataInfo (plainEnv firstItem) firstItem {} =
      jsonParseExtDataInfo (plainEnv firstItem) (namedVar 0 1024) {} := by
  decide +kernel

/-- The text of the item is read as the item. -/
theorem plainEnv_parse (item : CJsonItem) :
    (plainEnv item).parse ((plainEnv item).print item) = some item := if_pos rfl

/-- The text of the variable reads back. -/
theorem firstItem_readsBack :
    ReadsBack (plainEnv firstItem)
      (jsonParseExtDataInfo (plainEnv firstItem) (namedVar 0 1024) {}) :=
  ⟨firstItem, plainEnv_parse firstItem, by rw [firstItem_reads]⟩

/-- The empty list is linked. -/
theorem emptyStores_listed : VarsListed emptyStores [] where
  inv := ⟨⟨.nil, none, rfl, rfl⟩, rfl, fun p => by simp [emptyStores]⟩
  payload := by simp


/-- A variable is added. -/
def addFirst : VarRequest := .set (namedVar 0 1024) true (plainRoom 1)

/-- Another variable of that name is added. -/
def addSecond : VarRequest := .set (namedVar 1 1025) true (plainRoom 2)

/-- A variable is added to no variables. -/
theorem storesAgree_run_first : ∃ outs st',
    runBlocking (varRequest (plainEnv firstItem) plainSql 2) emptyStores ([addFirst].take 1) =
    some (outs, st') ∧
      StoresAgree (plainEnv firstItem) 2 st' := by
  have hfresh : GuardedRun (varRequest (plainEnv firstItem) plainSql 2)
      (fun st req => FreshRooms st req.rooms) emptyStores [addFirst] :=
    ⟨⟨List.nodup_singleton _, by simp [emptyStores]⟩, by split <;> trivial⟩
  have hnew : MeetsNew (plainEnv firstItem) plainSql emptyStores (plainRoom 1)
      (jsonParseExtDataInfo (plainEnv firstItem) (namedVar 0 1024) {}) :=
        ⟨⟨rfl, rfl, rfl⟩, firstItem_readsBack, rfl⟩
  have hmeets : GuardedRun (varRequest (plainEnv firstItem) plainSql 2)
    (MeetsStores (plainEnv firstItem) plainSql 2) emptyStores
      [addFirst] :=
    ⟨fun _ => ⟨hnew, List.pairwise_singleton _ _⟩, by split <;> trivial⟩
  have hagree : StoresAgree (plainEnv firstItem) 2 emptyStores := List.Perm.refl []
  exact storesAgree_run emptyStores_listed rfl hagree (by decide) hfresh hmeets 1

/-- Two variables of one name are two in the list and one in the table, whatever their texts are. -/
theorem not_storesAgree_twice : ¬ ∃ env : CJsonEnv, ∀ (fuel : ℕ) (reqs : List VarRequest),
    (reqs.map fun req => req.rooms.length).sum < fuel →
    GuardedRun (varRequest env plainSql fuel) (fun st req => FreshRooms st req.rooms) emptyStores
      reqs → ∀ k : ℕ,
    ∃ outs st', runBlocking (varRequest env plainSql fuel) emptyStores (reqs.take k) =
      some (outs, st') ∧ StoresAgree env fuel st' := by
  rintro ⟨env, h⟩
  have hfresh : GuardedRun (varRequest env plainSql 3) (fun st req => FreshRooms st req.rooms)
      emptyStores [addFirst, addSecond] := by
    refine ⟨⟨List.nodup_singleton _, by simp [emptyStores]⟩, ⟨List.nodup_singleton _, ?_⟩, ?_⟩
    · intro room hroom
      rw [List.mem_singleton.mp hroom]
      rfl
    · split <;> trivial
  obtain ⟨outs, st', hrun, hagree⟩ := h 3 [addFirst, addSecond] (by decide) hfresh 2
  have hlengths : ((runBlocking (varRequest env plainSql 3) emptyStores
    ([addFirst, addSecond].take 2)).map
      fun r => (r.2.db.sCfgDbinit, r.2.db.cfgVarext.length, (liveInfos 3 r.2).length)) = some (true,
        1, 2) := rfl
  rw [hrun] at hlengths
  obtain ⟨hopened, hrows, hlive⟩ : st'.db.sCfgDbinit = true ∧ st'.db.cfgVarext.length = 1 ∧
      (liveInfos 3 st').length = 2 := by
    simpa using hlengths
  have hloaded : (loadedInfos env st'.db).length ≤ st'.db.cfgVarext.length := by
    rw [loadedInfos, boardCfgVarextLoadlist, if_pos hopened]
    exact (List.length_filterMap_le _ _).trans (List.length_filterMap_le _ _)
  have hlen := hagree.length_eq
  rw [List.length_map, List.length_map, hlive] at hlen
  omega

end DasEdge.VarManage
