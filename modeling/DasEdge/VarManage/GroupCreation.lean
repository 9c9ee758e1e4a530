import DasEdge.VarManage.AddrAllocation
import DasEdge.VarManage.SortExact
import DasEdge.VarManage.StoreAgreement

/-!
# Creating the variables of a group

A call that creates a group puts its variables at the end of the list one after another. For that it
goes by the links `next` only, so it works on a list that a sort has left with other links `prev` as
well. A sort that follows may take nodes out of the list, but it neither makes any nor takes out
those at the end that are above all before them.
-/

namespace DasEdge.VarManage

open DasEdge.Library

/-- The nodes of the list follow each other to its end, and each of them carries what it does of its
variable. -/
structure VarsHeld (st : VarStores) (chain : List ℕ) : Prop where
  path : LinkPath (nextOf st.list.heap) st.list.pList chain none
  payload : ∀ p ∈ chain, dataOf st.list.heap p = some (listNode (st.info p))

/-- Besides, no node has itself or a later one as its `prev`, so that the list can be sorted. -/
structure VarsSortable (st : VarStores) (chain : List ℕ) : Prop extends VarsHeld st chain where
  back : BackLinks (dataOf st.list.heap) (prevOf st.list.heap) chain

/-- The variables of some nodes. -/
def chainInfos (st : VarStores) (chain : List ℕ) : List ExtDataInfo := chain.map st.info

/-- The nodes are allocated. -/
theorem VarsHeld.alloc {st : VarStores} {chain : List ℕ} (hheld : VarsHeld st chain) :
    ∀ p ∈ chain, (dataOf st.list.heap p).isSome := by
  intro p hp
  rw [hheld.payload p hp]
  rfl

/-- A list that is linked can be sorted. -/
theorem VarsListed.sortable {st : VarStores} {nodes : List (ℕ × ExtData)}
    (hlisted : VarsListed st nodes) :
    VarsSortable st (nodes.map Prod.fst) := by
  obtain ⟨hstate, -, hdata⟩ := hlisted.inv.sortState
  refine ⟨⟨hstate.path, fun p hp => ?_⟩, hstate.back⟩
  obtain ⟨x, hx, rfl⟩ := List.mem_map.mp hp
  rw [hdata x hx, hlisted.payload x hx]

/-- The nodes that are found from the start of the list on. -/
theorem linkedNodes_path {h : LinkHeap ExtData} {start : Option ℕ} {chain : List ℕ} (fuel : ℕ)
    (hfuel : chain.length ≤ fuel)
    (hpath : LinkPath (nextOf h) start chain none) (halloc : ∀ p ∈ chain, (dataOf h p).isSome) :
    (linkedNodes h fuel start).map Prod.fst = chain := by
  induction chain generalizing start fuel with
  | nil =>
    obtain rfl := hpath
    cases fuel <;> rfl
  | cons p chain ih =>
    obtain ⟨fuel, rfl⟩ : ∃ k, fuel = k + 1 :=
      ⟨fuel - 1, by simp only [List.length_cons] at hfuel; omega⟩
    obtain ⟨rfl, hrest⟩ := hpath
    obtain ⟨hp, halloc⟩ := List.forall_mem_cons.mp halloc
    obtain ⟨node, hnode, hnext, -⟩ := exists_node hp
    have htail := ih fuel (by simpa using hfuel) hrest halloc
    rw [linkedNodes, hnode]
    simp only [List.map_cons, hnext, htail]

/-- The variables of the list are those of its nodes. -/
theorem VarsHeld.liveInfos_eq {st : VarStores} {chain : List ℕ} {fuel : ℕ}
    (hheld : VarsHeld st chain) (hfuel : chain.length ≤ fuel) :
    liveInfos fuel st = chainInfos st chain := by
  rw [liveInfos, chainInfos, ← linkedNodes_path fuel hfuel hheld.path hheld.alloc, List.map_map]
  rfl

/-- The last node is found. -/
theorem lastNode_path {h : LinkHeap ExtData} {first last : ℕ} {chain : List ℕ} (fuel : ℕ)
    (hfuel : chain.length < fuel)
    (hpath : LinkPath (nextOf h) (some first) (chain ++ [last]) none)
    (halloc : ∀ p ∈ chain ++ [last], (dataOf h p).isSome) :
    lastNode h fuel first = some last := by
  induction chain generalizing first fuel with
  | nil =>
    obtain ⟨fuel, rfl⟩ : ∃ k, fuel = k + 1 := ⟨fuel - 1, by omega⟩
    obtain ⟨hfirst, hend⟩ := hpath
    obtain rfl := Option.some.inj hfirst
    obtain ⟨node, hnode, hnext, -⟩ := exists_node (halloc first (by simp))
    rw [← hnext] at hend
    simp only [lastNode, hnode, Option.bind_eq_bind, Option.bind_some]
    rw [show node.next = none from hend]
  | cons p chain ih =>
    obtain ⟨fuel, rfl⟩ : ∃ k, fuel = k + 1 := ⟨fuel - 1, by omega⟩
    obtain ⟨hfirst, hrest⟩ := hpath
    obtain rfl := Option.some.inj hfirst
    obtain ⟨node, hnode, hnext, -⟩ := exists_node (halloc first (by simp))
    obtain ⟨second, hsecond⟩ : ∃ second, nextOf h first = some second := by
      rw [hrest.start_eq]
      cases chain <;> exact ⟨_, rfl⟩
    have htail :=
      ih fuel (by simpa using hfuel) (hsecond ▸ hrest)
      (fun q hq => halloc q (List.mem_cons_of_mem _ hq))
    simp only [lastNode, hnode, Option.bind_eq_bind, Option.bind_some, hnext, hsecond, htail]

/-- A new node is put behind the last one. -/
theorem insertNode_path {fuel : ℕ} {list : ExtDataList} {chain : List ℕ} {p : ℕ} (data : ExtData)
    (hpath : LinkPath (nextOf list.heap) list.pList chain none)
    (halloc : ∀ q ∈ chain, (dataOf list.heap q).isSome)
    (hfresh : list.heap p = none) (hfuel : chain.length < fuel) :
    ∃ list', insertNode fuel list p data = some list' ∧
      LinkPath (nextOf list'.heap) list'.pList (chain ++ [p]) none ∧
      dataOf list'.heap = Function.update (dataOf list.heap) p (some data) ∧
      prevOf list'.heap = Function.update (prevOf list.heap) p chain.getLast? := by
  have hp : p ∉ chain := by
    intro hmem
    have hsome := halloc p hmem
    rw [dataOf, hfresh] at hsome
    cases hsome
  have hdata : dataOf (Function.update list.heap p (some ⟨data, none, none⟩)) =
      Function.update (dataOf list.heap) p (some data) := by
    funext q
    by_cases hq : q = p
    · subst hq
      simp [dataOf]
    · simp [dataOf, hq]
  have hnext : nextOf (Function.update list.heap p (some ⟨data, none, none⟩)) =
      Function.update (nextOf list.heap) p none := by
    funext q
    by_cases hq : q = p
    · subst hq
      simp [nextOf]
    · simp [nextOf, hq]
  have hprev : prevOf (Function.update list.heap p (some ⟨data, none, none⟩)) =
      Function.update (prevOf list.heap) p none := by
    funext q
    by_cases hq : q = p
    · subst hq
      simp [prevOf]
    · simp [prevOf, hq]
  set h := Function.update list.heap p (some ⟨data, none, none⟩) with hh
  have hpath' : LinkPath (nextOf h) list.pList chain none :=
    hpath.congr fun q hq => by rw [hnext, Function.update_of_ne (ne_of_mem_of_not_mem hq hp)]
  have halloc' : ∀ q ∈ chain, (dataOf h q).isSome := by
    intro q hq
    rw [hdata, Function.update_of_ne (ne_of_mem_of_not_mem hq hp)]
    exact halloc q hq
  rcases List.eq_nil_or_concat chain with rfl | ⟨before, last, rfl⟩
  · have hnull : list.pList = none := hpath
    refine ⟨⟨h, list.n + 1, some p⟩, by rw [insertNode, hnull], ⟨rfl, ?_⟩, hdata, hprev⟩
    rw [hnext, Function.update_self]
    rfl
  · rw [List.concat_eq_append] at *
    obtain ⟨first, hfirst⟩ : ∃ first, list.pList = some first := by
      rw [hpath.start_eq]
      cases before <;> exact ⟨_, rfl⟩
    have hlen : before.length < fuel := by
      rw [List.length_append] at hfuel
      omega
    have hlast : lastNode h fuel first = some last := lastNode_path fuel hlen (hfirst ▸ hpath') halloc'
    have hlastNe : last ≠ p :=
      fun heq => hp (heq ▸ List.mem_append_right _ (List.mem_singleton_self last))
    obtain ⟨h₁, heq₁, hdata₁, hnext₁, hprev₁⟩ := setNext_fields (halloc' last (by simp)) (some p)
    have hpAlloc : (dataOf h₁ p).isSome := by rw [hdata₁, hdata, Function.update_self]; rfl
    obtain ⟨h₂, heq₂, hdata₂, hnext₂, hprev₂⟩ := setPrev_fields hpAlloc (some last)
    refine ⟨⟨h₂, list.n + 1, list.pList⟩, ?_, ?_, by rw [hdata₂, hdata₁, hdata], ?_⟩
    · simp only [insertNode, hfirst, ← hh, hlast, heq₁, heq₂, Option.bind_eq_bind, Option.bind_some]
    · obtain ⟨hbefore, -⟩ := (linkPath_concat ..).mp hpath'
      have hlastBefore : last ∉ before := by
        simpa using (List.nodup_cons.mp (List.perm_middle.nodup hpath.nodup)).1
      refine (linkPath_concat ..).mpr ⟨(linkPath_concat ..).mpr ⟨hbefore.congr fun q hq => ?_, ?_⟩, ?_⟩
      · change nextOf h₂ q = nextOf h q
        rw [hnext₂, hnext₁, Function.update_of_ne (ne_of_mem_of_not_mem hq hlastBefore)]
      · change nextOf h₂ last = some p
        rw [hnext₂, hnext₁, Function.update_self]
      · change nextOf h₂ p = none
        rw [hnext₂, hnext₁, Function.update_of_ne hlastNe.symm, hnext, Function.update_self]
    · change prevOf h₂ = _
      rw [hprev₂, hprev₁, hprev, Function.update_idem, List.getLast?_concat]

/-- A node behind the last one keeps the links `prev` in order. -/
theorem BackLinks.concat {data : ℕ → Option ExtData} {back : ℕ → Option ℕ} {chain : List ℕ} {p : ℕ}
    {d : ExtData}
    (hback : BackLinks data back chain) (hfresh : data p = none) :
    BackLinks (Function.update data p (some d)) (Function.update back p chain.getLast?)
      (chain ++ [p]) := by
  have hp : p ∉ chain := by
    intro hmem
    have hsome := hback.alloc p hmem
    rw [hfresh] at hsome
    cases hsome
  have hkeep : ∀ q, (data q).isSome → (Function.update data p (some d) q).isSome := by
    intro q hq
    by_cases hqp : q = p
    · rw [hqp, Function.update_self]
      rfl
    · rwa [Function.update_of_ne hqp]
  have hold {q : ℕ} (hq : q ∈ chain) : Function.update back p chain.getLast? q = back q :=
    Function.update_of_ne (ne_of_mem_of_not_mem hq hp) _ _
  refine ⟨?_, fun q hq => ?_, fun q hq r hr => ?_, fun q hq => ?_, ?_⟩
  · rw [← List.concat_eq_append]
    exact hback.nodup.concat hp
  · rcases List.mem_append.mp hq with hq | hq
    · exact hkeep q (hback.alloc q hq)
    · rw [List.mem_singleton.mp hq, Function.update_self]
      rfl
  · rcases List.mem_append.mp hq with hq | hq
    · exact hkeep r (hback.backAlloc q hq r (hold hq ▸ hr))
    · rw [List.mem_singleton.mp hq, Function.update_self] at hr
      exact hkeep r (hback.alloc r (List.mem_of_getLast? hr))
  · rcases List.mem_append.mp hq with hq | hq
    · rw [hold hq]
      exact hback.self q hq
    · rw [List.mem_singleton.mp hq, Function.update_self]
      exact fun hlast => hp (List.mem_of_getLast? hlast)
  · refine List.pairwise_append.mpr ⟨hback.later.imp_of_mem fun hq _ hlater => by rwa [hold hq],
      List.pairwise_singleton _ _,
      fun q hq r hr heq => ?_⟩
    rw [hold hq, List.mem_singleton.mp hr] at heq
    have hsome := hback.backAlloc q hq p heq
    rw [hfresh] at hsome
    cases hsome

section Created

variable {env : CJsonEnv} {sql : SqlName} {fuel : ℕ} {st : VarStores} {chain : List ℕ}

/-- A variable is put behind the last one. -/
theorem createVar_held {made : ExtDataCfg × StoreRoom} (hheld : VarsHeld st chain)
    (hfuel : chain.length < fuel)
    (hfresh : st.list.heap made.2.p = none) :
    ∃ st', createVar env sql fuel st made = some ((), st') ∧ VarsHeld st' (chain ++ [made.2.p]) ∧
      (VarsSortable st chain → VarsSortable st' (chain ++ [made.2.p])) ∧
      chainInfos st' (chain ++ [made.2.p]) = chainInfos st chain ++ [createdInfo made.1] ∧
      ∀ q, q ≠ made.2.p → dataOf st'.list.heap q = dataOf st.list.heap q := by
  obtain ⟨list', hinsert, hpath, hdata, hprev⟩ :=
    insertNode_path (listNode (createdInfo made.1)) hheld.path hheld.alloc hfresh hfuel
  have hnone : dataOf st.list.heap made.2.p = none := by
    rw [dataOf, hfresh]
    rfl
  have hp : made.2.p ∉ chain := by
    intro hmem
    have hsome := hheld.payload _ hmem
    rw [hnone] at hsome
    cases hsome
  set st' : VarStores :=
    ⟨list', Function.update st.info made.2.p (createdInfo made.1),
      varextAdd env sql made.2 (createdInfo made.1) st.db⟩ with hst'
  have hpayload : ∀ q ∈ chain ++ [made.2.p], dataOf st'.list.heap q = some (listNode (st'.info q)) := by
    intro q hq
    change dataOf list'.heap q = some (listNode
      (Function.update st.info made.2.p (createdInfo made.1) q))
    rcases List.mem_append.mp hq with hq | hq
    · have hne := ne_of_mem_of_not_mem hq hp
      rw [hdata, Function.update_of_ne hne, Function.update_of_ne hne]
      exact hheld.payload q hq
    · rw [List.mem_singleton.mp hq, hdata, Function.update_self, Function.update_self]
  refine ⟨st', ?_, ⟨hpath, hpayload⟩, fun hsortable => ⟨⟨hpath, hpayload⟩, ?_⟩, ?_, fun q hq => ?_⟩
  · rw [createVar, insertVar, hinsert]
    rfl
  · change BackLinks (dataOf list'.heap) (prevOf list'.heap) _
    rw [hdata, hprev]
    exact hsortable.back.concat hnone
  · rw [chainInfos, List.map_append, List.map_singleton]
    refine congrArg₂ _ (List.map_congr_left fun q hq => ?_) ?_
    · exact Function.update_of_ne (ne_of_mem_of_not_mem hq hp) _ _
    · exact congrArg (fun info => [info]) (Function.update_self ..)
  · change dataOf list'.heap q = _
    rw [hdata, Function.update_of_ne hq]

/-- The variables of a group are put behind the last one, in their order. -/
theorem createVars_held (made : List (ExtDataCfg × StoreRoom)) (hheld : VarsHeld st chain)
    (hfuel : chain.length + made.length < fuel)
    (hnodup : (made.map (·.2.p)).Nodup) (hfresh : ∀ m ∈ made, dataOf st.list.heap m.2.p = none) :
    ∃ outs st', runBlocking (createVar env sql fuel) st made = some (outs, st') ∧
      VarsHeld st' (chain ++ made.map (·.2.p)) ∧
      (VarsSortable st chain → VarsSortable st' (chain ++ made.map (·.2.p))) ∧
      chainInfos st' (chain ++ made.map (·.2.p)) = chainInfos st chain ++ made.map fun m =>
      createdInfo m.1 := by
  induction made generalizing st chain with
  | nil =>
    simp only [List.map_nil, List.append_nil]
    exact ⟨[], st, rfl, hheld, id, rfl⟩
  | cons m made ih =>
    obtain ⟨hm, hnodup⟩ := List.nodup_cons.mp hnodup
    obtain ⟨hmFresh, hfresh⟩ := List.forall_mem_cons.mp hfresh
    rw [List.length_cons] at hfuel
    obtain ⟨st₁, hcreate, hheld₁, hsortable₁, hinfos₁, hdata₁⟩ :=
      @createVar_held env sql fuel st chain m hheld (by omega) (Option.map_eq_none_iff.mp hmFresh)
    have hfresh₁ : ∀ m' ∈ made, dataOf st₁.list.heap m'.2.p = none := by
      intro m' hm'
      rw [hdata₁ _ (ne_of_mem_of_not_mem (List.mem_map_of_mem hm') hm)]
      exact hfresh m' hm'
    obtain ⟨outs, st', hrun, hheld', hsortable', hinfos'⟩ :=
      ih hheld₁ (by rw [List.length_append, List.length_singleton]; omega) hnodup hfresh₁
    rw [List.append_assoc, List.singleton_append] at hheld' hsortable' hinfos'
    refine ⟨() :: outs, st', ?_, hheld', fun hsortable => hsortable' (hsortable₁ hsortable), ?_⟩
    · rw [runBlocking, hcreate, Option.bind_some, hrun]
      rfl
    · rw [List.map_cons, hinfos', hinfos₁, List.append_assoc]
      rfl

/-- The variables of a group are linked in behind those of a list that is linked. -/
theorem createVars_listed {nodes : List (ℕ × ExtData)} (made : List (ExtDataCfg × StoreRoom))
    (hlisted : VarsListed st nodes)
    (hfuel : nodes.length + made.length < fuel) (hnodup : (made.map (·.2.p)).Nodup)
    (hfresh : ∀ m ∈ made, m.2.p ∉ nodes.map Prod.fst) :
    ∃ outs st', runBlocking (createVar env sql fuel) st made = some (outs, st') ∧
      VarsListed st' (nodes ++ made.map fun m => (m.2.p, listNode (createdInfo m.1))) := by
  induction made generalizing st nodes with
  | nil => exact ⟨[], st, rfl, by rwa [List.map_nil, List.append_nil]⟩
  | cons m made ih =>
    obtain ⟨hm, hnodup⟩ := List.nodup_cons.mp hnodup
    obtain ⟨hmFresh, hfresh⟩ := List.forall_mem_cons.mp hfresh
    rw [List.length_cons] at hfuel
    have hnone : st.list.heap m.2.p = none := by
      rwa [← hlisted.inv.alloc, Bool.not_eq_true, Option.isSome_eq_false_iff,
        Option.isNone_iff_eq_none] at hmFresh
    have hroom : nodes.length < fuel := by omega
    obtain ⟨st₁, hinsert, hlisted₁, hdb, hinfo⟩ :=
      insertVar_listed (createdInfo m.1) hlisted hroom hnone
    set st₂ : VarStores := { st₁ with db := varextAdd env sql m.2 (createdInfo m.1) st₁.db }
    have hlisted₂ : VarsListed st₂ (nodes ++ [(m.2.p, listNode (createdInfo m.1))]) :=
      ⟨hlisted₁.inv, hlisted₁.payload⟩
    have hcreate : createVar env sql fuel st m = some ((), st₂) := by
      rw [createVar, hinsert]
      rfl
    have hfresh₂ : ∀ m' ∈ made, m'.2.p ∉
        (nodes ++ [(m.2.p, listNode (createdInfo m.1))]).map Prod.fst := by
      intro m' hm'
      have hne : m'.2.p ≠ m.2.p := fun heq => hm (List.mem_map.mpr ⟨m', hm', heq⟩)
      rw [List.map_append, List.mem_append, not_or, List.map_singleton, List.mem_singleton]
      exact ⟨hfresh m' hm', hne⟩
    obtain ⟨outs, st', hrun, hlisted'⟩ :=
      ih hlisted₂ (by rw [List.length_append, List.length_singleton]; omega) hnodup hfresh₂
    rw [List.append_assoc, List.singleton_append] at hlisted'
    refine ⟨() :: outs, st', ?_, hlisted'⟩
    rw [runBlocking, hcreate, Option.bind_some, hrun]
    rfl

/-- The loop over a group creates no more variables than there is memory for. -/
theorem createLoop_length_le (make : ℕ → UInt16 → UInt16 → Option ExtDataCfg) (sz : UInt16)
    (room : ℕ) (ns : List ℕ) (extAddr addr : UInt16) :
    (createLoop make sz room ns extAddr addr).2.length ≤ room := by
  induction ns generalizing room extAddr addr with
  | nil =>
    rw [createLoop]
    exact Nat.zero_le _
  | cons n ns ih =>
    cases room with
    | zero =>
      rw [createLoop]
      exact le_rfl
    | succ room =>
      rw [createLoop]
      split
      · exact Nat.zero_le _
      · exact Nat.succ_le_succ (ih ..)

/-- The loop over the registers creates no more variables than there is memory for. -/
theorem regsLoop_length_le (group : String) (slave devType devNum proto : Int32) (room : ℕ)
    (vars : List ExtDataCfg) (regs : List CJson) :
    (regsLoop group slave devType devNum proto room vars regs).2.length ≤ room := by
  induction regs generalizing room vars with
  | nil =>
    rw [regsLoop]
    exact Nat.zero_le _
  | cons reg regs ih =>
    rw [regsLoop]
    simp only
    split
    · exact Nat.zero_le _
    · cases regTypes reg with
      | none => exact Nat.zero_le _
      | some types =>
        cases room with
        | zero => exact le_rfl
        | succ room => exact Nat.succ_le_succ (ih ..)

/-- A call creates no more variables than there is memory for. -/
theorem GroupCall.made_length_le (room : ℕ) (vars : List ExtDataCfg) (call : GroupCall) :
    (call.made room vars).2.length ≤ room := by
  cases call with
  | ai id pre slaveAddr devType devNum =>
    simp only [made, varAddAi]
    split_ifs
    · exact Nat.zero_le _
    · exact Nat.zero_le _
    · exact createLoop_length_le ..
  | ttl devType1 id pre slaveAddr devType devNum =>
    simp only [made, varAddTtl]
    split_ifs
    · exact Nat.zero_le _
    · split
      · exact Nat.zero_le _
      · exact createLoop_length_le ..
  | dev obj devType devNum proto =>
    by_cases hrefused : (AddCall.json obj devType devNum proto).Refused vars
    · have hnil := (AddCall.run_refused room hrefused).2
      rw [AddCall.run] at hnil
      rw [made, hnil]
      exact Nat.zero_le _
    · obtain ⟨group, -, hloop⟩ := varmanageAddDevWithJson_loop room hrefused
      rw [made, hloop]
      exact regsLoop_length_le ..

/-- A call puts its variables behind those of the list, and sorts the list then unless it gives up. -/
theorem createGroup_held {made : ℤ × List ExtDataCfg} {rooms : List StoreRoom}
    (hheld : VarsHeld st chain)
    (hfuel : chain.length + rooms.length < fuel) (hfresh : FreshRooms st rooms)
    (hlen : made.2.length ≤ rooms.length) :
    ∃ st₁ news, createGroup env sql fuel st made rooms =
      (if made.1 = 0 then sortVars fuel st₁ else some st₁) ∧
      VarsHeld st₁ (chain ++ news) ∧ (VarsSortable st chain → VarsSortable st₁ (chain ++ news)) ∧
      (∀ nodes, VarsListed st nodes → nodes.map Prod.fst = chain → ∃ nodes₁, VarsListed st₁ nodes₁ ∧
        nodes₁.map Prod.fst = chain ++ news) ∧
      news.length = made.2.length ∧
      chainInfos st₁ (chain ++ news) = chainInfos st chain ++ made.2.map createdInfo := by
  have hsub := map_snd_zip_sublist made.2 rooms
  have hzip : (made.2.zip rooms).length = made.2.length := by
    rw [List.length_zip]
    exact min_eq_left hlen
  have hnodup : ((made.2.zip rooms).map (·.2.p)).Nodup := by
    have hrooms := hfresh.1.sublist (hsub.map (·.p))
    rwa [List.map_map] at hrooms
  have hunused : ∀ m ∈ made.2.zip rooms, dataOf st.list.heap m.2.p = none := by
    intro m hm
    rw [dataOf, hfresh.2 m.2 (hsub.subset (List.mem_map_of_mem hm))]
    rfl
  obtain ⟨outs, st₁, hrun, hheld₁, hsortable₁, hinfos⟩ :=
    @createVars_held env sql fuel st chain (made.2.zip rooms) hheld (by omega) hnodup hunused
  refine ⟨st₁, (made.2.zip rooms).map (·.2.p), by rw [createGroup, hrun, Option.bind_some], hheld₁,
    hsortable₁, ?_, by simpa using hlen, ?_⟩
  · rintro nodes hlisted rfl
    rw [List.length_map] at hfuel
    obtain ⟨outs', st', hrun', hlisted'⟩ :=
      @createVars_listed env sql fuel st nodes (made.2.zip rooms) hlisted (by omega) hnodup
        fun m hm => by
        rw [← hlisted.inv.alloc, hfresh.2 m.2 (hsub.subset (List.mem_map_of_mem hm))]
        exact Bool.false_ne_true
    obtain rfl : st' = st₁ := congrArg Prod.snd (Option.some.inj (hrun'.symm.trans hrun))
    refine ⟨_, hlisted', ?_⟩
    rw [List.map_append, List.map_map]
    rfl
  have hfst : (made.2.zip rooms).map (fun m => createdInfo m.1) =
      ((made.2.zip rooms).map Prod.fst).map createdInfo := by
    rw [List.map_map]
    rfl
  rw [hinfos, hfst, List.map_fst_zip hlen]

end Created

section Sorted

variable {data : ℕ → Option ExtData} {fuel : ℕ}

/-- Nodes that are above all nodes before them, among themselves and before `done`. -/
def AboveAll (data : ℕ → Option ExtData) (done news : List ℕ) : Prop :=
  (∀ x ∈ news, ∀ p ∈ done, addrAt data p < addrAt data x) ∧ news.Pairwise fun p x => addrAt data p <
    addrAt data x

/-- The first of them goes to the nodes before. -/
theorem AboveAll.step {done news : List ℕ} {x : ℕ} (habove : AboveAll data done (x :: news)) :
    (∀ p ∈ done, addrAt data p < addrAt data x) ∧ AboveAll data (done ++ [x]) news := by
  obtain ⟨hdone, hnews⟩ := habove
  obtain ⟨hx, hnews⟩ := List.pairwise_cons.mp hnews
  refine ⟨hdone x List.mem_cons_self, fun y hy p hp => ?_, hnews⟩
  rcases List.mem_append.mp hp with hp | hp
  · exact hdone y (List.mem_cons_of_mem _ hy) p hp
  · rw [List.mem_singleton.mp hp]
    exact hx y hy

/-- A node above all before it is not moved. -/
theorem not_placeHere {back : ℕ → Option ℕ} {done : List ℕ} {x : ℕ}
    (habove : ∀ p ∈ done, addrAt data p < addrAt data x) :
    ∀ p ∈ done, ¬ PlaceHere data (back p) p x :=
  fun p hp hplace => UInt16.not_le.mpr (habove p hp) hplace.1

/-- The loop leaves nodes that are above all before them where they are. -/
theorem sortFrom_above (rounds : ℕ) {list : ExtDataList} {top : ℕ} {done news : List ℕ}
    (hrounds : news.length < rounds)
    (hfuel : (done ++ news).length < fuel)
    (hstate : SortState data list.heap (some top) (done ++ news))
    (habove : AboveAll data done news) :
    sortFrom fuel rounds list top news.head? = some list := by
  induction rounds generalizing done news with
  | zero => omega
  | succ rounds ih =>
    cases news with
    | nil => rfl
    | cons x news =>
      rw [List.length_cons] at hrounds
      have hshift : done ++ x :: news = done ++ [x] ++ news := by simp
      rw [hshift] at hstate hfuel
      have hnext := hstate.next_eq List.getLast?_concat
      have halloc : (dataOf list.heap x).isSome := hstate.data_eq ▸ hstate.back.alloc x (by simp)
      obtain ⟨-, habove⟩ := habove.step
      have hrest := ih (by omega) hfuel hstate habove
      rw [List.head?_cons]
      cases news with
      | nil => exact (sortFrom_last hnext halloc).trans hrest
      | cons y news =>
        have hdoneFuel : (done ++ [x]).length < fuel := by
          rw [List.length_append] at hfuel
          omega
        rw [sortFrom_round hnext (hstate.stays hdoneFuel (not_placeHere habove.step.1)) halloc, hnext]
        exact hrest

/-- Whatever else is moved, the nodes at the end that are above all before them stay there, and of
the others no more are left than there were. -/
theorem sortFrom_subperm (rounds : ℕ) {list : ExtDataList} {top : ℕ} {done rest news : List ℕ}
    (hrounds : (rest ++ news).length < rounds) (hfuel : (done ++ rest ++ news).length < fuel)
    (hstart : list.pList = some top)
    (hstate : SortState data list.heap (some top) (done ++ rest ++ news))
    (habove : AboveAll data (done ++ rest) news) :
    ∃ list' final, sortFrom fuel rounds list top (rest ++ news).head? = some list' ∧
      SortState data list'.heap list'.pList (final ++ news) ∧ final.Subperm (done ++ rest) := by
  induction rounds generalizing list top done rest with
  | zero => omega
  | succ rounds ih =>
    cases rest with
    | nil =>
      rw [List.append_nil] at *
      exact ⟨list, done, sortFrom_above _ hrounds hfuel hstate habove, hstart ▸ hstate, .refl _⟩
    | cons node rest =>
      have hshift : done ++ node :: rest = done ++ [node] ++ rest := by simp
      rw [List.cons_append, List.head?_cons, hshift]
      rw [hshift] at hstate hfuel habove
      rw [List.cons_append, List.length_cons] at hrounds
      have hstate' := hstate
      rw [List.append_assoc (done ++ [node])] at hstate'
      have hnext := hstate'.next_eq List.getLast?_concat
      have halloc : (dataOf list.heap node).isSome := hstate.data_eq ▸ hstate.back.alloc node (by simp)
      have hdoneFuel : (done ++ [node]).length < fuel := by
        simp only [List.length_append] at hfuel ⊢
        omega
      by_cases hfail : ∀ x, (rest ++ news).head? = some x →
        ∀ p ∈ done ++ [node], ¬ PlaceHere data (prevOf list.heap p) p x
      · obtain ⟨list', final, hrun, hfinal⟩ := ih (by omega) hfuel hstart hstate habove
        refine ⟨list', final, ?_, hfinal⟩
        rw [← hrun]
        cases hhead : (rest ++ news).head? with
        | none => exact sortFrom_last (hnext.trans hhead) halloc
        | some x =>
          obtain ⟨tail, htail⟩ := List.head?_eq_some_iff.mp hhead
          rw [htail] at hstate'
          rw [sortFrom_round (hnext.trans hhead) (hstate'.stays hdoneFuel (hfail x hhead)) halloc,
            hnext, hhead]
      · push Not at hfail
        obtain ⟨x, hhead, hfound⟩ := hfail
        obtain ⟨rest, rfl⟩ : ∃ tail, rest = x :: tail := by
          cases rest with
          | nil =>
            obtain ⟨tail, rfl⟩ := List.head?_eq_some_iff.mp hhead
            obtain ⟨p, hp, hplace⟩ := hfound
            rw [List.append_nil] at habove
            exact absurd hplace (not_placeHere habove.step.1 p hp)
          | cons y tail => exact ⟨tail, by rw [Option.some.inj hhead]⟩
        obtain ⟨before, tmp, after, hsplit, hbefore, hpass⟩ := exists_first hfound
        have hlast : (before ++ tmp :: after).getLast? = some node := hsplit ▸ List.getLast?_concat
        rw [hsplit] at hstate' hfuel hdoneFuel habove ⊢
        rw [List.cons_append] at hstate'
        obtain ⟨list₁, top₁, front, hround, hstart₁, hstate₁, hsub, -⟩ :=
          hstate'.round_moves hstart hlast rounds hdoneFuel hbefore hpass
        have hfewer : (front ++ tmp :: after ++ rest).Subperm
            (before ++ tmp :: after ++ x :: rest) := by
          have hperm : (before ++ [x] ++ (tmp :: after ++ rest)).Perm
              (before ++ tmp :: after ++ x :: rest) := by
            rw [List.append_assoc, List.append_assoc, List.singleton_append]
            exact List.perm_middle.symm.append_left before
          rw [List.append_assoc]
          exact (hsub.append_right _).subperm.trans hperm.subperm
        have hlen := hfewer.length_le
        rw [← List.append_assoc, ← List.append_assoc] at hstate₁
        obtain ⟨list', final, hrun, hfinal, hsubperm⟩ :=
          ih (by rw [List.cons_append, List.length_cons] at hrounds; omega)
          (by rw [List.length_append] at hfuel ⊢; omega) hstart₁ hstate₁
          ⟨fun y hy p hp => habove.1 y hy p (hfewer.subset hp), habove.2⟩
        exact ⟨list', final, hround.trans hrun, hfinal, hsubperm.trans hfewer⟩

/-- A sort returns. It keeps the nodes at the end that are above all before them, and of the others
it makes none. -/
theorem sortVars_sortable {st : VarStores} {old news : List ℕ}
    (hsortable : VarsSortable st (old ++ news))
    (hfuel : (old ++ news).length < fuel) (habove : AboveAll (dataOf st.list.heap) old news) :
    ∃ st' final, sortVars fuel st = some st' ∧ VarsSortable st' (final ++ news) ∧
      final.Subperm old ∧ st'.info = st.info ∧
      st'.db = st.db := by
  have hstate : SortState (dataOf st.list.heap) st.list.heap st.list.pList (old ++ news) :=
    ⟨rfl, hsortable.path, hsortable.back⟩
  obtain ⟨list', final, hsort, hfinal, hsubperm⟩ : ∃ list' final, sortExtdataLink fuel st.list =
    some list' ∧
      SortState (dataOf st.list.heap) list'.heap list'.pList (final ++ news) ∧ final.Subperm old := by
    rw [sortExtdataLink]
    cases hstart : st.list.pList with
    | none =>
      rw [hstart] at hstate
      exact ⟨st.list, old, rfl, hstart ▸ hstate, .refl _⟩
    | some top =>
      rw [hstart] at hstate
      have hhead : (old ++ news).head? = some top :=
        (hstate.path.start_eq.trans (Option.or_none ..)).symm
      have hrun :=
        @sortFrom_subperm _ fuel fuel st.list top [] old news hfuel hfuel hstart hstate habove
      rwa [hhead] at hrun
  refine ⟨⟨list', st.info, st.db⟩, final, by rw [sortVars, hsort]; rfl,
    ⟨⟨hfinal.path, fun p hp => ?_⟩, ?_⟩, hsubperm, rfl, rfl⟩
  · change dataOf list'.heap p = _
    rw [hfinal.data_eq]
    refine hsortable.payload p ?_
    rcases List.mem_append.mp hp with hp | hp
    · exact List.mem_append_left _ (hsubperm.subset hp)
    · exact List.mem_append_right _ hp
  · change BackLinks (dataOf list'.heap) (prevOf list'.heap) _
    rw [hfinal.data_eq]
    exact hfinal.back

end Sorted

end DasEdge.VarManage
