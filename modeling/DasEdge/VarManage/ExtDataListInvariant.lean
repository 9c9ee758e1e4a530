import DasEdge.VarManage.ExtDataList

/-!
# The list of variables keeps its links

Insertions and removals keep the doubly linked list and change its nodes by the one node they are
about. Sorting keeps it as long as there is nothing to sort: on a list that is strictly ascending in
`usAddr` no splice is made. Every splice leaves the node behind the moved one with its old `prev`.
-/

namespace DasEdge.VarManage

open DasEdge.Library

/-- The representation invariant: `nodes` are linked from `pList` both ways with null links outside,
`n` counts them, and they are all the nodes there are. -/
structure ExtDataListInv (list : ExtDataList) (nodes : List (ℕ × ExtData)) : Prop where
  linked : LinkedList list.heap list.pList nodes
  count : list.n = nodes.length
  alloc : ∀ p, (list.heap p).isSome ↔ p ∈ nodes.map Prod.fst

/-- The nodes inserted and not removed, after one more call and the node it freed. -/
def extDataLive (live : List (ℕ × ExtData)) : ExtDataOp × Option ℕ → List (ℕ × ExtData)
  | (.insert p data, _) => live ++ [(p, data)]
  | (.remove _, some p) => live.filter (·.1 ≠ p)
  | (.remove _, none) => live
  | (.sort, _) => live

/-- The calls return and keep the invariant, for exactly the nodes inserted and not removed. -/
def ExtDataKeeps (fuel : ℕ) (list : ExtDataList) (nodes : List (ℕ × ExtData))
    (ops : List ExtDataOp) : Prop :=
  ∃ outs list' nodes', runBlocking (extDataStep fuel) list ops = some (outs, list') ∧
    ExtDataListInv list' nodes' ∧ nodes'.Perm ((ops.zip outs).foldl extDataLive nodes)

/-- The allocator hands out addresses that are not in use. -/
def ExtDataFresh (list : ExtDataList) : ExtDataOp → Prop
  | .insert p _ => list.heap p = none
  | .remove _ => True
  | .sort => True

instance (list : ExtDataList) (op : ExtDataOp) : Decidable (ExtDataFresh list op) :=
  match op with
  | .insert p _ => decidable_of_iff ((list.heap p).isNone = true) Option.isNone_iff_eq_none
  | .remove _ => isTrue trivial
  | .sort => isTrue trivial

/-- The addresses `usAddr` ascend strictly along the list. -/
def StrictlyAscending (datas : List ExtData) : Prop :=
  datas.Pairwise fun a b => a.xIo.usAddr < b.xIo.usAddr

/-- A sort is only called on a list that is strictly ascending already. -/
def SortsAscending (fuel : ℕ) (list : ExtDataList) : ExtDataOp → Prop
  | .insert _ _ => True
  | .remove _ => True
  | .sort => StrictlyAscending (linkedData list.heap fuel list.pList)

instance (fuel : ℕ) (list : ExtDataList) (op : ExtDataOp) : Decidable (SortsAscending fuel list op) :=
  match op with
  | .insert _ _ => isTrue trivial
  | .remove _ => isTrue trivial
  | .sort => inferInstanceAs (Decidable (List.Pairwise _ _))

/-- Walking a segment to null ends at its last node. -/
theorem lastNode_eq {h : LinkHeap ExtData} {prev : Option ℕ} {first q : ℕ} {xs : List (ℕ × ExtData)}
    {e : ExtData}
    {last : Option ℕ} (fuel : ℕ) (hfuel : xs.length < fuel)
    (hseg : LinkSeg h prev (some first) (xs ++ [(q, e)]) last none) :
    lastNode h fuel first = some q := by
  induction xs generalizing prev first fuel with
  | nil =>
    obtain ⟨fuel, rfl⟩ : ∃ k, fuel = k + 1 := ⟨fuel - 1, by omega⟩
    obtain ⟨hq, next, hnode, -, rfl⟩ := hseg
    cases hq
    simp [lastNode, hnode]
  | cons x xs ih =>
    obtain ⟨p, d⟩ := x
    obtain ⟨fuel, rfl⟩ : ∃ k, fuel = k + 1 :=
      ⟨fuel - 1, by simp only [List.length_cons] at hfuel; omega⟩
    obtain ⟨hp, next, hnode, hrest⟩ := hseg
    cases hp
    obtain ⟨second, rfl⟩ : ∃ second, next = some second := by
      cases xs with
      | nil => exact ⟨q, hrest.1⟩
      | cons y ys => exact ⟨y.1, hrest.1⟩
    rw [lastNode, hnode]
    exact ih fuel (by simpa using hfuel) hrest

/-- The search by name finds the first node of that name. -/
theorem getExtDataWithName_eq {h : LinkHeap ExtData} {prev start : Option ℕ} {xs : List (ℕ × ExtData)}
    {last : Option ℕ} (name : String) (fuel : ℕ) (hfuel : xs.length < fuel)
    (hseg : LinkSeg h prev start xs last none) :
    getExtDataWithName h name fuel start =
      some ((xs.find? fun x => name = x.2.szName).map Prod.fst) := by
  induction xs generalizing prev start fuel with
  | nil =>
    obtain ⟨fuel, rfl⟩ : ∃ k, fuel = k + 1 := ⟨fuel - 1, by omega⟩
    obtain ⟨-, rfl⟩ := hseg
    rfl
  | cons x xs ih =>
    obtain ⟨p, d⟩ := x
    obtain ⟨fuel, rfl⟩ : ∃ k, fuel = k + 1 :=
      ⟨fuel - 1, by simp only [List.length_cons] at hfuel; omega⟩
    obtain ⟨rfl, next, hnode, hrest⟩ := hseg
    rw [getExtDataWithName, hnode, Option.bind_eq_bind, Option.bind_some]
    by_cases hname : name = d.szName
    · simp [hname]
    · rw [if_neg hname, ih fuel (by simpa using hfuel) hrest,
        List.find?_cons_of_neg (by simpa using hname)]

/-- An insertion puts the new node at the end. -/
theorem insertNode_keeps {fuel : ℕ} {list : ExtDataList} {nodes : List (ℕ × ExtData)} {p : ℕ}
    (data : ExtData)
    (hinv : ExtDataListInv list nodes) (hfuel : nodes.length < fuel) (hfresh : list.heap p = none) :
    ∃ list', insertNode fuel list p data = some list' ∧
      ExtDataListInv list' (nodes ++ [(p, data)]) := by
  have hp : p ∉ nodes.map Prod.fst := by
    rw [← hinv.alloc, hfresh]
    exact Bool.false_ne_true
  set h := Function.update list.heap p (some ⟨data, none, none⟩) with hh
  have hnew : h p = some ⟨data, none, none⟩ := Function.update_self ..
  have halloc : ∀ r, (h r).isSome ↔ r ∈ (nodes ++ [(p, data)]).map Prod.fst := by
    intro r
    by_cases hr : r = p
    · subst hr
      simp [hnew]
    · rw [hh, Function.update_of_ne hr, hinv.alloc]
      simp [hr]
  have hcount : list.n + 1 = ((nodes ++ [(p, data)]).length : ℤ) := by
    rw [hinv.count]
    simp
  obtain ⟨last, hseg⟩ := hinv.linked.linked
  rcases List.eq_nil_or_concat nodes with rfl | ⟨xs, ⟨q, e⟩, rfl⟩
  · obtain ⟨-, hnull⟩ := hseg
    refine ⟨⟨h, list.n + 1, some p⟩, by rw [insertNode, hnull], ⟨⟨by simp, some p, ?_⟩, hcount, halloc⟩⟩
    exact ⟨rfl, none, hnew, rfl, rfl⟩
  · rw [List.concat_eq_append] at *
    obtain ⟨first, hfirst⟩ : ∃ first, list.pList = some first := by
      cases xs with
      | nil => exact ⟨q, hseg.1⟩
      | cons x xs => exact ⟨x.1, hseg.1⟩
    have hseg' : LinkSeg h none list.pList (xs ++ [(q, e)]) last none := linkSeg_update p _ hp hseg
    have hlast : lastNode h fuel first = some q :=
      lastNode_eq fuel (by simp only [List.length_append, List.length_singleton] at hfuel; omega)
        (hfirst ▸ hseg')
    obtain ⟨h₁, h₂, hnext, hprev, hlinked, hsome⟩ :=
      LinkedList.concat ⟨hinv.linked.nodup, last, hseg'⟩ hp hnew
    refine ⟨⟨h₂, list.n + 1, list.pList⟩, ?_, ⟨hlinked, hcount, fun r => by rw [hsome, halloc]⟩⟩
    simp only [insertNode, hfirst, ← hh, hlast, hnext, hprev, Option.bind_eq_bind, Option.bind_some]

/-- A removal takes out and frees the first node of that name. -/
theorem removeNodeWithName_keeps {fuel : ℕ} {list : ExtDataList} {nodes : List (ℕ × ExtData)}
    (name : String)
    (hinv : ExtDataListInv list nodes) (hfuel : nodes.length < fuel) :
    ∃ freed list' nodes', removeNodeWithName fuel list name = some (freed, list') ∧
      ExtDataListInv list' nodes' ∧ nodes' = extDataLive nodes (.remove name, freed) := by
  obtain ⟨last, hseg⟩ := hinv.linked.linked
  have hfind := getExtDataWithName_eq name fuel hfuel hseg
  cases hget : nodes.find? fun x => name = x.2.szName with
  | none =>
    rw [hget] at hfind
    refine ⟨none, list, nodes, ?_, hinv, rfl⟩
    rw [removeNodeWithName, hfind]
    rfl
  | some x =>
    obtain ⟨p, d⟩ := x
    obtain ⟨-, xs, ys, rfl, -⟩ := List.find?_eq_some_iff_append.mp hget
    rw [hget] at hfind
    obtain ⟨node, h₁, h₂, start, hnode, hleft, hright, hlinked, hsome⟩ := hinv.linked.remove
    have hnodup := hinv.linked.nodup
    rw [List.map_append, List.map_cons, List.nodup_append, List.nodup_cons] at hnodup
    obtain ⟨-, ⟨hpys, -⟩, hdisjoint⟩ := hnodup
    have hpxs : p ∉ xs.map Prod.fst := fun hmem => hdisjoint p hmem p List.mem_cons_self rfl
    have hcount : list.n - 1 = ((xs ++ ys).length : ℤ) := by
      rw [hinv.count]
      simp only [List.length_append, List.length_cons]
      omega
    have hnull : (if list.n - 1 = 0 then none else start) = start := by
      split
      · next hzero =>
        have hnil : xs ++ ys = [] := List.length_eq_zero_iff.mp (by omega)
        obtain ⟨last', hlast'⟩ := hlinked.linked
        rw [hnil] at hlast'
        exact hlast'.2.symm
      · rfl
    have halloc : ∀ r, (Function.update h₂ p none r).isSome ↔ r ∈ (xs ++ ys).map Prod.fst := by
      intro r
      by_cases hr : r = p
      · subst hr
        rw [Function.update_self, List.map_append, List.mem_append]
        simpa using ⟨by simpa using hpxs, by simpa using hpys⟩
      · rw [Function.update_of_ne hr, hsome, hinv.alloc]
        simp [hr]
    refine ⟨some p, ⟨Function.update h₂ p none, list.n - 1, start⟩, xs ++ ys, ?_,
      ⟨hlinked, hcount, halloc⟩, ?_⟩
    · rw [removeNodeWithName, hfind, Option.map_some, Option.bind_eq_bind, Option.bind_some]
      simp only [hnode, hleft, hright, hnull, Option.bind_eq_bind, Option.bind_some]
    · exact (filter_ne_middle hinv.linked.nodup).symm

/-- No place is found for a node whose `usAddr` is above those of all nodes before it. -/
theorem sortPlace_eq {list : ExtDataList} {top node next : ℕ} {nextNode : LinkNode ExtData}
    (hnext : list.heap next = some nextNode) {prev start : Option ℕ} {xs : List (ℕ × ExtData)}
    {last : Option ℕ}
    (fuel : ℕ) (hfuel : xs.length < fuel) (hprev : ∀ p, prev = some p → (list.heap p).isSome)
    (hfresh : next ∉ xs.map Prod.fst) (habove : ∀ x ∈ xs, x.2.xIo.usAddr < nextNode.data.xIo.usAddr)
    (hseg : LinkSeg list.heap prev start xs last (some next)) :
    sortPlace list top node next fuel start = some (list, top) := by
  induction xs generalizing prev start fuel with
  | nil =>
    obtain ⟨fuel, rfl⟩ : ∃ k, fuel = k + 1 := ⟨fuel - 1, by omega⟩
    obtain ⟨-, rfl⟩ := hseg
    rw [sortPlace, if_pos rfl]
  | cons x xs ih =>
    obtain ⟨p, d⟩ := x
    obtain ⟨fuel, rfl⟩ : ∃ k, fuel = k + 1 :=
      ⟨fuel - 1, by simp only [List.length_cons] at hfuel; omega⟩
    obtain ⟨rfl, behind, hnode, hrest⟩ := hseg
    have hne : ¬ (some p = some next) := by
      rintro heq
      cases heq
      exact hfresh List.mem_cons_self
    have hlt : ¬ nextNode.data.xIo.usAddr ≤ d.xIo.usAddr :=
      UInt16.not_le.mpr (habove (p, d) List.mem_cons_self)
    have htail : sortPlace list top node next fuel behind = some (list, top) := by
      refine ih fuel (by simpa using hfuel) ?_ (fun h => hfresh (List.mem_cons_of_mem _ h))
        (fun x hx => habove x (List.mem_cons_of_mem _ hx)) hrest
      rintro q hq
      cases hq
      rw [hnode]
      rfl
    simp only [sortPlace, if_neg hne, Option.bind_eq_bind, Option.bind_some, hnode, hnext]
    cases prev with
    | none => simp only [if_neg hlt, htail]
    | some q =>
      obtain ⟨qNode, hq⟩ := Option.isSome_iff_exists.mp (hprev q rfl)
      simp only [hq, Option.bind_some, if_neg (fun h => hlt h.2 : ¬ (_ ∧ _)), htail]

/-- The outer loop leaves a strictly ascending list alone. -/
theorem sortFrom_eq {fuel top : ℕ} {list : ExtDataList} (done : List (ℕ × ExtData))
    {rest : List (ℕ × ExtData)} {mid node last : Option ℕ}
    (rounds : ℕ) (hrounds : rest.length < rounds) (hfuel : (done ++ rest).length < fuel)
    (hnodup : ((done ++ rest).map Prod.fst).Nodup)
    (hascend : (done ++ rest).Pairwise fun x y => x.2.xIo.usAddr < y.2.xIo.usAddr)
    (hdone : LinkSeg list.heap none (some top) done mid node)
    (hrest : LinkSeg list.heap mid node rest last none) :
    sortFrom fuel rounds list top node = some list := by
  induction rest generalizing done mid node rounds with
  | nil =>
    obtain ⟨rounds, rfl⟩ : ∃ k, rounds = k + 1 := ⟨rounds - 1, by omega⟩
    obtain ⟨-, rfl⟩ := hrest
    rw [sortFrom]
  | cons x rest ih =>
    obtain ⟨p, d⟩ := x
    obtain ⟨rounds, rfl⟩ : ∃ k, rounds = k + 1 :=
      ⟨rounds - 1, by simp only [List.length_cons] at hrounds; omega⟩
    obtain ⟨rfl, next, hnode, hrest⟩ := hrest
    have hdone' : LinkSeg list.heap none (some top) (done ++ [(p, d)]) (some p) next := by
      rw [linkSeg_append]
      exact ⟨mid, some p, hdone, rfl, next, hnode, rfl, rfl⟩
    have hshift : done ++ (p, d) :: rest = done ++ [(p, d)] ++ rest := by simp
    rw [hshift] at hfuel hnodup hascend
    have hplace : (match next with
        | some next => sortPlace list top p next fuel (some top)
        | none => some (list, top)) = some (list, top) := by
      cases rest with
      | nil =>
        obtain ⟨-, rfl⟩ := hrest
        rfl
      | cons y rest =>
        obtain ⟨q, e⟩ := y
        obtain ⟨rfl, behind, hq, -⟩ := hrest
        rw [List.map_append, List.nodup_append] at hnodup
        refine sortPlace_eq hq fuel ?_ (by rintro _ ⟨⟩) ?_ ?_ hdone'
        · simp only [List.length_append, List.length_cons] at hfuel ⊢
          omega
        · intro hmem
          exact hnodup.2.2 q hmem q List.mem_cons_self rfl
        · intro x hx
          exact (List.pairwise_append.mp hascend).2.2 x hx (q, e) List.mem_cons_self
    have htail := ih _ rounds (by simpa using hrounds) hfuel hnodup hascend hdone' hrest
    rw [sortFrom, hnode, Option.bind_eq_bind, Option.bind_some]
    cases next with
    | none => simpa [hnode] using htail
    | some next =>
      simp only at hplace
      simpa only [hplace, Option.bind_eq_bind, Option.bind_some, hnode] using htail

/-- A sort leaves a strictly ascending list alone. -/
theorem sortExtdataLink_eq {fuel : ℕ} {list : ExtDataList} {nodes : List (ℕ × ExtData)}
    (hinv : ExtDataListInv list nodes) (hfuel : nodes.length < fuel)
    (hsort : SortsAscending fuel list .sort) : sortExtdataLink fuel list = some list := by
  obtain ⟨last, hseg⟩ := hinv.linked.linked
  have hascend : nodes.Pairwise fun x y => x.2.xIo.usAddr < y.2.xIo.usAddr := by
    rw [SortsAscending, StrictlyAscending, linkSeg_linkedData fuel hfuel.le hseg] at hsort
    simpa [List.pairwise_map] using hsort
  rw [sortExtdataLink]
  cases hstart : list.pList with
  | none => rfl
  | some top =>
    rw [hstart] at hseg
    exact sortFrom_eq [] fuel hfuel hfuel hinv.linked.nodup hascend ⟨rfl, rfl⟩ hseg

/-- One call keeps the invariant for the nodes that are then live, if it sorts only what is sorted. -/
theorem extDataStep_keeps {fuel : ℕ} {list : ExtDataList} {nodes : List (ℕ × ExtData)} (op : ExtDataOp)
    (hinv : ExtDataListInv list nodes) (hfuel : nodes.length < fuel) (hfresh : ExtDataFresh list op)
    (hsort : SortsAscending fuel list op) :
    ∃ freed list' nodes', extDataStep fuel list op = some (freed, list') ∧ ExtDataListInv list' nodes' ∧
      nodes' = extDataLive nodes (op, freed) ∧ nodes'.length ≤ nodes.length + 1 := by
  cases op with
  | insert p data =>
    obtain ⟨list', hinsert, hinv'⟩ := insertNode_keeps data hinv hfuel hfresh
    exact ⟨none, list', _, by rw [extDataStep, hinsert]; rfl, hinv', rfl, by simp⟩
  | remove name =>
    obtain ⟨freed, list', nodes', hremove, hinv', hlive⟩ := removeNodeWithName_keeps name hinv hfuel
    refine ⟨freed, list', nodes', hremove, hinv', hlive, ?_⟩
    cases freed with
    | none => rw [hlive, extDataLive]; omega
    | some p =>
      rw [hlive, extDataLive]
      exact (List.length_filter_le _ _).trans (Nat.le_succ _)
  | sort =>
    refine ⟨none, list, nodes, ?_, hinv, rfl, Nat.le_succ _⟩
    rw [extDataStep, sortExtdataLink_eq hinv hfuel hsort]
    rfl

/-- Every run that sorts only lists that are strictly ascending keeps the list and its nodes. -/
theorem extDataRun_keeps (fuel : ℕ) (list : ExtDataList) (nodes : List (ℕ × ExtData))
    (ops : List ExtDataOp)
    (hinv : ExtDataListInv list nodes) (hfuel : nodes.length + ops.length < fuel)
    (hfresh : GuardedRun (extDataStep fuel) ExtDataFresh list ops)
    (hsort : GuardedRun (extDataStep fuel) (SortsAscending fuel) list ops) :
    ExtDataKeeps fuel list nodes ops := by
  induction ops generalizing list nodes with
  | nil => exact ⟨[], list, nodes, rfl, hinv, .rfl⟩
  | cons op rest ih =>
    rw [List.length_cons] at hfuel
    obtain ⟨freed, list₁, nodes₁, hstep, hinv₁, hlive, hlen⟩ :=
      extDataStep_keeps op hinv (by omega) hfresh.1 hsort.1
    have hfresh₁ := hfresh.2
    have hsort₁ := hsort.2
    rw [hstep] at hfresh₁ hsort₁
    obtain ⟨outs, list', nodes', hrun, hinv', hperm⟩ := ih list₁ nodes₁ hinv₁ (by omega) hfresh₁ hsort₁
    refine ⟨freed :: outs, list', nodes', ?_, hinv', ?_⟩
    · rw [runBlocking, hstep, Option.bind_some, hrun]
      rfl
    · rwa [List.zip_cons_cons, List.foldl_cons, ← hlive]

/-- The empty list. -/
def emptyExtDataList : ExtDataList := ⟨fun _ => none, 0, none⟩

/-- The empty list has no nodes. -/
theorem emptyExtDataList_inv : ExtDataListInv emptyExtDataList [] :=
  ⟨⟨List.nodup_nil, none, rfl, rfl⟩, rfl, fun _ => by simp [emptyExtDataList]⟩

/-- A run that inserts in ascending order, sorts and removes. -/
theorem extDataRun_keeps_four :
    ExtDataKeeps 6 emptyExtDataList []
      [.insert 1 { szName := "a", xIo := { usAddr := 1024 } },
        .insert 2 { szName := "b", xIo := { usAddr := 1025 } },
        .sort, .remove "a"] :=
  extDataRun_keeps 6 emptyExtDataList [] _ emptyExtDataList_inv (by decide) (by decide) (by decide)

/-- Sorting two nodes in the wrong order leaves the second one without `prev`. -/
theorem extDataSort_breaks_prev :
    ¬ ∀ (fuel : ℕ) (list : ExtDataList) (nodes : List (ℕ × ExtData)) (ops : List ExtDataOp),
      ExtDataListInv list nodes → nodes.length + ops.length < fuel →
      GuardedRun (extDataStep fuel) ExtDataFresh list ops → ExtDataKeeps fuel list nodes ops := by
  intro h
  obtain ⟨outs, list', nodes', hrun, hinv, -⟩ := h 6 emptyExtDataList []
    [.insert 1 { xIo := { usAddr := 1025 } }, .insert 2 { xIo := { usAddr := 1024 } }, .sort]
    emptyExtDataList_inv (by decide) (by decide)
  have hlinks :=
    congrArg (Option.map fun r => (r.2.pList, (r.2.heap 1).map (·.prev),
    (r.2.heap 2).map (·.next))) hrun
  have hcomputed : (some 2, some none, some (some 1)) = (list'.pList, (list'.heap 1).map (·.prev),
      (list'.heap 2).map (·.next)) := Option.some.inj hlinks
  obtain ⟨hstart, hprev, hnext⟩ : list'.pList = some 2 ∧ (list'.heap 1).map (·.prev) = some none ∧
      (list'.heap 2).map (·.next) = some (some 1) := by
    simpa only [Prod.mk.injEq, eq_comm] using hcomputed
  obtain ⟨last, hseg⟩ := hinv.linked.linked
  rw [hstart] at hseg
  match nodes', hseg with
  | [], ⟨_, hnull⟩ => cases hnull
  | (p, d) :: rest, ⟨hp, next, hnode, hrest⟩ =>
    cases hp
    obtain rfl : next = some 1 := by simpa [hnode] using hnext
    match rest, hrest with
    | [], ⟨_, hnull⟩ => cases hnull
    | (q, e) :: _, ⟨hq, _, hnode', _⟩ =>
      cases hq
      simp [hnode'] at hprev

end DasEdge.VarManage
