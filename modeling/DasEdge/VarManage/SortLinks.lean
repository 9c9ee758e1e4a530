import DasEdge.Library.LinkFields
import DasEdge.VarManage.ExtDataList

/-!
# What a move of the sort does to the links

The sort takes the node behind the current one and looks for a place for it among the nodes up to
the current one. The splice goes by the `prev` of the node it finds, which is not always the node
before it in the list: then nodes drop out of the list. What is left is linked in any case, and no
node gets itself or a later node as its `prev`.
-/

namespace DasEdge.VarManage

open DasEdge.Library

/-- The address `usAddr` of a node. -/
def addrAt (data : ℕ → Option ExtData) (p : ℕ) : UInt16 := ((data p).map (·.xIo.usAddr)).getD 0

/-- The test of the inner loop at the node `tmp` for the node `next`. -/
def PlaceHere (data : ℕ → Option ExtData) (prev : Option ℕ) (tmp next : ℕ) : Prop :=
  addrAt data next ≤ addrAt data tmp ∧ ∀ q, prev = some q → addrAt data q ≤ addrAt data next

/-- The links `next` after a splice, where `behind` follows `next`. -/
def splicedNext (links back : ℕ → Option ℕ) (node next tmp : ℕ) (behind : Option ℕ) : ℕ → Option ℕ :=
  updateAt (Function.update (Function.update links node behind) next (some tmp)) (back tmp) (some next)

/-- The links `prev` after a splice. -/
def splicedPrev (links back : ℕ → Option ℕ) (node next tmp : ℕ) (behind : Option ℕ) : ℕ → Option ℕ :=
  updateAt (Function.update (updateAt back behind (some node)) next (back tmp))
    (splicedNext links back node next tmp behind tmp) (some next)

/-- The nodes of a list are allocated, and none has itself or a later one as its `prev`. -/
structure BackLinks (data : ℕ → Option ExtData) (back : ℕ → Option ℕ) (chain : List ℕ) : Prop where
  nodup : chain.Nodup
  alloc : ∀ p ∈ chain, (data p).isSome
  backAlloc : ∀ p ∈ chain, ∀ q, back p = some q → (data q).isSome
  self : ∀ p ∈ chain, back p ≠ some p
  later : chain.Pairwise fun p q => back p ≠ some q

/-- The nodes follow each other from `start` to the end, with their payloads. -/
structure SortState (data : ℕ → Option ExtData) (h : LinkHeap ExtData) (start : Option ℕ)
    (chain : List ℕ) : Prop where
  data_eq : dataOf h = data
  path : LinkPath (nextOf h) start chain none
  back : BackLinks data (prevOf h) chain

/-- Fewer nodes. -/
theorem BackLinks.sublist {data : ℕ → Option ExtData} {back : ℕ → Option ℕ} {chain fewer : List ℕ}
    (h : BackLinks data back chain)
    (hsub : fewer.Sublist chain) : BackLinks data back fewer where
  nodup := h.nodup.sublist hsub
  alloc p hp := h.alloc p (hsub.subset hp)
  backAlloc p hp := h.backAlloc p (hsub.subset hp)
  self p hp := h.self p (hsub.subset hp)
  later := h.later.sublist hsub

/-- The address of a node in the heap. -/
theorem addrAt_dataOf {h : LinkHeap ExtData} {p : ℕ} {node : LinkNode ExtData}
    (hnode : h p = some node) :
    addrAt (dataOf h) p = node.data.xIo.usAddr := by
  rw [addrAt, dataOf, hnode]
  rfl

/-- Nodes where the test fails are passed. -/
theorem sortPlace_pass {list : ExtDataList} {top node next : ℕ} {start mid : Option ℕ}
    {seen : List ℕ} (fuel : ℕ)
    (hpath : LinkPath (nextOf list.heap) start seen mid) (hnext : (dataOf list.heap next).isSome)
    (hfresh : next ∉ seen)
    (halloc : ∀ p ∈ seen, (dataOf list.heap p).isSome)
    (hback : ∀ p ∈ seen, ∀ q, prevOf list.heap p = some q → (dataOf list.heap q).isSome)
    (hfail : ∀ p ∈ seen, ¬ PlaceHere (dataOf list.heap) (prevOf list.heap p) p next) :
    sortPlace list top node next (fuel + seen.length) start =
      sortPlace list top node next fuel mid := by
  induction seen generalizing start with
  | nil =>
    obtain rfl := hpath
    rfl
  | cons p seen ih =>
    obtain ⟨rfl, hrest⟩ := hpath
    obtain ⟨hpAlloc, halloc⟩ := List.forall_mem_cons.mp halloc
    obtain ⟨hpBack, hback⟩ := List.forall_mem_cons.mp hback
    obtain ⟨hpFail, hfail⟩ := List.forall_mem_cons.mp hfail
    obtain ⟨hpNext, hfresh⟩ := List.ne_and_not_mem_of_not_mem_cons hfresh
    obtain ⟨pNode, hp, hpNextOf, hpPrevOf⟩ := exists_node hpAlloc
    obtain ⟨nextNode, hx, -, -⟩ := exists_node hnext
    have htail := ih hrest hfresh halloc hback hfail
    rw [← hpNextOf] at htail
    rw [← hpPrevOf] at hpFail hpBack
    have hne : ¬ (some p = some next) := fun heq => hpNext (Option.some.inj heq).symm
    rw [List.length_cons, ← Nat.add_assoc, sortPlace, if_neg hne]
    simp only [Option.bind_eq_bind, Option.bind_some, hp, hx]
    cases hprev : pNode.prev with
    | none =>
      have hlt : ¬ nextNode.data.xIo.usAddr ≤ pNode.data.xIo.usAddr := by
        rw [← addrAt_dataOf hp, ← addrAt_dataOf hx]
        exact fun hle => hpFail ⟨hle, fun q hq => nomatch hprev.symm.trans hq⟩
      simp only [if_neg hlt, htail]
    | some q =>
      obtain ⟨qNode, hq, -, -⟩ := exists_node (hpBack q hprev)
      have hnot : ¬ (nextNode.data.xIo.usAddr ≥ qNode.data.xIo.usAddr ∧
          nextNode.data.xIo.usAddr ≤ pNode.data.xIo.usAddr) := by
        rw [← addrAt_dataOf hp, ← addrAt_dataOf hx, ← addrAt_dataOf hq]
        rintro ⟨hge, hle⟩
        refine hpFail ⟨hle, fun r hr => ?_⟩
        cases hprev.symm.trans hr
        exact hge
      simp only [hq, Option.bind_some, if_neg hnot, htail]

/-- A splice returns, and changes the links only. -/
theorem spliceBefore_fields {h : LinkHeap ExtData} {node next tmp : ℕ} {behind : Option ℕ}
    (hbehind : nextOf h next = behind)
    (hne : next ≠ node) (htmp : next ≠ tmp) (hbehindTmp : behind ≠ some tmp)
    (hnode : (dataOf h node).isSome) (hnext : (dataOf h next).isSome)
    (htmpAlloc : (dataOf h tmp).isSome)
    (hbehindAlloc : ∀ q, behind = some q → (dataOf h q).isSome)
    (hback : ∀ q, prevOf h tmp = some q → (dataOf h q).isSome)
    (hright : ∀ q, splicedNext (nextOf h) (prevOf h) node next tmp behind tmp = some q →
      (dataOf h q).isSome) :
    ∃ h', spliceBefore h (prevOf h tmp).isNone node next tmp = some h' ∧ dataOf h' = dataOf h ∧
      nextOf h' = splicedNext (nextOf h) (prevOf h) node next tmp behind ∧
      prevOf h' = splicedPrev (nextOf h) (prevOf h) node next tmp behind := by
  obtain ⟨nextNode, hx, hxNext, -⟩ := exists_node hnext
  obtain ⟨h₁, heq₁, hdata₁, hnext₁, hprev₁⟩ := setNext_fields hnode behind
  rw [← hdata₁] at hnext htmpAlloc hbehindAlloc hback hright
  have hbehind₁ : nextOf h₁ next = behind := by rw [hnext₁, Function.update_of_ne hne, hbehind]
  obtain ⟨nextNode₁, hx₁, hxNext₁, -⟩ := exists_node hnext
  obtain ⟨h₂, heq₂, hdata₂, hnext₂, hprev₂⟩ := setBack_fields hbehindAlloc (some node)
  rw [← hdata₂] at hnext htmpAlloc hback hright
  obtain ⟨h₃, heq₃, hdata₃, hnext₃, hprev₃⟩ := setNext_fields hnext (some tmp)
  rw [← hdata₃] at hnext htmpAlloc hback hright
  have htmpPrev₃ : prevOf h₃ tmp = prevOf h tmp := by
    rw [hprev₃, hprev₂, updateAt_of_ne hbehindTmp, hprev₁]
  obtain ⟨tmpNode₃, ht₃, -, htPrev₃⟩ := exists_node htmpAlloc
  obtain ⟨h₄, heq₄, hdata₄, hnext₄, hprev₄⟩ := setPrev_fields hnext (prevOf h tmp)
  rw [← hdata₄] at htmpAlloc hback hright
  have htmpPrev₄ : prevOf h₄ tmp = prevOf h tmp := by
    rw [hprev₄, Function.update_of_ne htmp.symm, htmpPrev₃]
  obtain ⟨tmpNode₄, ht₄, -, htPrev₄⟩ := exists_node htmpAlloc
  -- the entry before `tmp` goes by its `prev`
  obtain ⟨h₅, heq₅, hdata₅, hnext₅, hprev₅⟩ : ∃ h₅, (if (prevOf h tmp).isNone then some h₄ else
      (prevOf h tmp).bind fun q => setNext h₄ q (some next)) = some h₅ ∧ dataOf h₅ = dataOf h₄ ∧
      nextOf h₅ = splicedNext (nextOf h) (prevOf h) node next tmp behind ∧ prevOf h₅ = prevOf h₄ := by
    cases hq : prevOf h tmp with
    | none => exact ⟨h₄, rfl, rfl, by rw [hnext₄, hnext₃, hnext₂, hnext₁, splicedNext, hq]; rfl, rfl⟩
    | some q =>
      obtain ⟨h₅, heq₅, hdata₅, hnext₅, hprev₅⟩ := setNext_fields (hback q hq) (some next)
      exact ⟨h₅, heq₅, hdata₅, by rw [hnext₅, hnext₄, hnext₃, hnext₂, hnext₁, splicedNext, hq]; rfl, hprev₅⟩
  rw [← hdata₅] at htmpAlloc hright
  obtain ⟨tmpNode₅, ht₅, htNext₅, -⟩ := exists_node htmpAlloc
  obtain ⟨h₆, heq₆, hdata₆, hnext₆, hprev₆⟩ := setBack_fields hright (some next)
  refine ⟨h₆, ?_, ?_, ?_, ?_⟩
  · rw [hbehind] at hxNext
    rw [hbehind₁] at hxNext₁
    rw [htmpPrev₃] at htPrev₃
    rw [htmpPrev₄] at htPrev₄
    rw [hnext₅] at htNext₅
    simp only [spliceBefore, Option.bind_eq_bind, hx, Option.bind_some, hxNext, heq₁, hx₁, hxNext₁,
      heq₂, heq₃, ht₃, htPrev₃,
      heq₄, ht₄, htPrev₄]
    cases hq : prevOf h tmp with
    | none =>
      obtain rfl : h₄ = h₅ := by simpa [hq] using heq₅
      obtain rfl : tmpNode₄ = tmpNode₅ := Option.some.inj (ht₄.symm.trans ht₅)
      simpa [htNext₅] using heq₆
    | some q =>
      have heq : setNext h₄ q (some next) = some h₅ := by simpa [hq] using heq₅
      simpa [heq, ht₅, htNext₅] using heq₆
  · rw [hdata₆, hdata₅, hdata₄, hdata₃, hdata₂, hdata₁]
  · rw [hnext₆, hnext₅]
  · rw [hprev₆, hprev₅, hprev₄, hprev₃, hprev₂, hprev₁, splicedPrev]

section Splice

variable {data : ℕ → Option ExtData} {links back : ℕ → Option ℕ} {before after mid rest : List ℕ}
  {node next tmp : ℕ}

/-- The link behind the place leads to the next node that stays. -/
theorem splicedNext_tmp (htmpNext : tmp ≠ next) (hfresh : tmp ∉ after)
    (hnode : tmp :: after = mid ++ [node])
    (hself : back tmp ≠ some tmp) (hpath : LinkPath links (some tmp) (tmp :: after) (some next)) :
    splicedNext links back node next tmp rest.head? tmp = (after ++ rest).head? := by
  rw [splicedNext, updateAt_of_ne hself, Function.update_of_ne htmpNext]
  cases after with
  | nil =>
    obtain rfl : tmp = node := by
      cases mid with
      | nil => simpa using hnode
      | cons a mid => simp at hnode
    rw [Function.update_self]
    rfl
  | cons s after =>
    have hne : tmp ≠ node := by
      rintro rfl
      cases mid with
      | nil => simp at hnode
      | cons a mid =>
        refine hfresh ?_
        rw [(List.cons.inj hnode).2]
        exact List.mem_append_right mid List.mem_cons_self
    rw [Function.update_of_ne hne]
    exact hpath.2.1

/-- A node that is not the moved one and not behind it, before or after, keeps its `prev`. -/
theorem splicedPrev_of_ne
    (hright : splicedNext links back node next tmp rest.head? tmp = (after ++ rest).head?) {p : ℕ}
    (hnext : p ≠ next) (hrest : rest.head? ≠ some p) (hafter : (after ++ rest).head? ≠ some p) :
    splicedPrev links back node next tmp rest.head? p = back p := by
  rw [splicedPrev, hright, updateAt_of_ne hafter, Function.update_of_ne hnext, updateAt_of_ne hrest]

/-- These are all but the moved node and the two that get another left neighbour. -/
theorem splicedPrev_same (hnodup : (before ++ tmp :: after ++ next :: rest).Nodup)
    (hright : splicedNext links back node next tmp rest.head? tmp = (after ++ rest).head?) {p : ℕ}
    (hp : p ∈ before ++ tmp :: (after.tail ++ rest.tail)) :
    splicedPrev links back node next tmp rest.head? p = back p := by
  refine splicedPrev_of_ne hright ?_ ?_ ?_ <;> cases rest <;> cases after <;>
    simp only [List.append_assoc, List.cons_append, List.nodup_append, List.nodup_cons,
      List.mem_append, List.mem_cons, List.tail_cons,
      List.tail_nil, List.nil_append, List.head?_cons, List.head?_nil] at * <;> grind

/-- The moved node takes the `prev` of the node it is put before. -/
theorem splicedPrev_next
    (hright : splicedNext links back node next tmp rest.head? tmp = (after ++ rest).head?)
    (hafter : (after ++ rest).head? ≠ some next) :
    splicedPrev links back node next tmp rest.head? next = back tmp := by
  rw [splicedPrev, hright, updateAt_of_ne hafter, Function.update_self]

/-- The node behind the place gets the moved one as its `prev`. -/
theorem splicedPrev_right
    (hright : splicedNext links back node next tmp rest.head? tmp = (after ++ rest).head?) {p : ℕ}
    (hp : (after ++ rest).head? = some p) :
    splicedPrev links back node next tmp rest.head? p = some next := by
  rw [splicedPrev, hright, hp]
  exact Function.update_self ..

/-- The node behind the moved one gets the current one as its `prev`, if it is not behind the place
as well. -/
theorem splicedPrev_behind
    (hright : splicedNext links back node next tmp rest.head? tmp = (after ++ rest).head?) {p : ℕ}
    (hp : rest.head? = some p) (hnext : p ≠ next) (hafter : (after ++ rest).head? ≠ some p) :
    splicedPrev links back node next tmp rest.head? p = some node := by
  rw [splicedPrev, hright, updateAt_of_ne hafter, Function.update_of_ne hnext, hp]
  exact Function.update_self ..

/-- What `prev` of a node can be after a splice. -/
theorem splicedPrev_cases
    (hright : splicedNext links back node next tmp rest.head? tmp = (after ++ rest).head?) {p : ℕ}
    (hnext : p ≠ next) : splicedPrev links back node next tmp rest.head? p = back p ∨
      (splicedPrev links back node next tmp rest.head? p = some next ∧ p ∈ after ++ rest) ∨
      (splicedPrev links back node next tmp rest.head? p = some node ∧ rest.head? = some p) := by
  by_cases hafter : (after ++ rest).head? = some p
  · exact .inr (.inl ⟨splicedPrev_right hright hafter, List.mem_of_mem_head? hafter⟩)
  · by_cases hrest : rest.head? = some p
    · exact .inr (.inr ⟨splicedPrev_behind hright hrest hnext hafter, hrest⟩)
    · exact .inl (splicedPrev_of_ne hright hnext hrest hafter)

/-- After a splice no node has itself or a later one as its `prev` either. -/
theorem BackLinks.splice (hback : BackLinks data back (before ++ tmp :: after ++ next :: rest))
    (hnode : tmp :: after = mid ++ [node])
    (hright : splicedNext links back node next tmp rest.head? tmp = (after ++ rest).head?) :
    BackLinks data (splicedPrev links back node next tmp rest.head?)
      (before ++ next :: (tmp :: after ++ rest)) := by
  have hperm : (before ++ next :: (tmp :: after ++ rest)).Perm
      (before ++ tmp :: after ++ next :: rest) := by
    rw [List.append_assoc]
    exact List.perm_middle.symm.append_left before
  have hnodup := hperm.nodup_iff.mpr hback.nodup
  have hnodeMem : node ∈ tmp :: after := by
    rw [hnode]
    exact List.mem_append_right mid List.mem_cons_self
  have hnodup' := hnodup
  rw [List.nodup_append, List.nodup_cons] at hnodup'
  obtain ⟨-, ⟨hnextTail, htail⟩, hbefore⟩ := hnodup'
  have hapart : ∀ p ∈ tmp :: after, p ∉ rest :=
    fun p hp hmem => (List.nodup_append.mp htail).2.2 p hp p hmem rfl
  have hlater := hback.later
  rw [List.append_assoc, List.pairwise_append, List.pairwise_append] at hlater
  obtain ⟨hlaterBefore, ⟨hlaterMid, hlaterNext, hlaterCross⟩, hlaterAll⟩ := hlater
  have hlaterRest := (List.pairwise_cons.mp hlaterNext).2
  have htmpMem : tmp ∈ before ++ tmp :: after ++ next :: rest := by simp
  have hold {p : ℕ} (hp : p ∈ before ++ next :: (tmp :: after ++ rest)) :
      p ∈ before ++ tmp :: after ++ next :: rest :=
    hperm.mem_iff.mp hp
  have hafterNext : (after ++ rest).head? ≠ some next := by
    intro h
    exact hnextTail (List.mem_cons_of_mem _ (List.mem_of_mem_head? h))
  have hnext := splicedPrev_next hright hafterNext
  refine ⟨hnodup, fun p hp => hback.alloc p (hold hp), ?_, ?_, ?_⟩
  · intro p hp q hq
    by_cases hpNext : p = next
    · subst hpNext
      rw [hnext] at hq
      exact hback.backAlloc tmp htmpMem q hq
    · rcases splicedPrev_cases hright hpNext with h | ⟨h, -⟩ | ⟨h, -⟩
      · exact hback.backAlloc p (hold hp) q (h ▸ hq)
      · cases h.symm.trans hq
        exact hback.alloc next (by simp)
      · cases h.symm.trans hq
        exact hback.alloc node (List.mem_append_left _ (List.mem_append_right _ hnodeMem))
  · intro p hp
    by_cases hpNext : p = next
    · subst hpNext
      rw [hnext]
      exact hlaterCross tmp List.mem_cons_self p List.mem_cons_self
    · rcases splicedPrev_cases hright hpNext with h | ⟨h, -⟩ | ⟨h, hrest⟩
      · exact h ▸ hback.self p (hold hp)
      · exact fun heq => hpNext (Option.some.inj (h.symm.trans heq)).symm
      · intro heq
        cases h.symm.trans heq
        exact hapart _ hnodeMem (List.mem_of_mem_head? hrest)
  · -- a changed `prev` is the moved node or the current one
    have hkeep : ∀ p ∈ tmp :: after ++ rest, ∀ r ∈ tmp :: after ++ rest, p ∈ tmp :: after ∨
      r ∈ rest → back p ≠ some r →
        splicedPrev links back node next tmp rest.head? p ≠ some r := by
      intro p hp r hr hside hne
      have hpNext : p ≠ next := fun heq => hnextTail (heq ▸ hp)
      rcases splicedPrev_cases hright hpNext with h | ⟨h, -⟩ | ⟨h, hrest⟩
      · exact h ▸ hne
      · intro heq
        cases h.symm.trans heq
        exact hnextTail hr
      · intro heq
        cases h.symm.trans heq
        rcases hside with hside | hside
        · exact hapart p hside (List.mem_of_mem_head? hrest)
        · exact hapart _ hnodeMem hside
    have hsame : ∀ p ∈ before, splicedPrev links back node next tmp rest.head? p = back p := by
      intro p hp
      exact splicedPrev_same hback.nodup hright (List.mem_append_left _ hp)
    rw [List.pairwise_append, List.pairwise_cons, List.pairwise_append]
    refine ⟨?_, ⟨?_, ?_, ?_, ?_⟩, ?_⟩
    · exact hlaterBefore.imp_of_mem fun hp _ hne => hsame _ hp ▸ hne
    · intro r hr
      rw [hnext]
      rcases List.mem_append.mp hr with hr | hr
      · rcases List.mem_cons.mp hr with rfl | hr
        · exact hback.self r htmpMem
        · exact (List.pairwise_cons.mp hlaterMid).1 r hr
      · exact hlaterCross tmp List.mem_cons_self r (List.mem_cons_of_mem _ hr)
    · exact hlaterMid.imp_of_mem fun hp hr hne =>
        hkeep _ (List.mem_append_left _ hp) _ (List.mem_append_left _ hr) (.inl hp) hne
    · exact hlaterRest.imp_of_mem fun hp hr hne =>
        hkeep _ (List.mem_append_right _ hp) _ (List.mem_append_right _ hr) (.inr hr) hne
    · exact fun p hp r hr =>
        hkeep p (List.mem_append_left _ hp) r (List.mem_append_right _ hr) (.inl hp)
          (hlaterCross p hp r (List.mem_cons_of_mem _ hr))
    · intro p hp r hr
      rw [hsame p hp]
      refine hlaterAll p hp r ?_
      simp only [List.mem_append, List.mem_cons] at hr ⊢
      tauto
/-- Other nodes keep their `next`. -/
theorem splicedNext_of_ne {behind : Option ℕ} {p : ℕ} (hnode : p ≠ node) (hnext : p ≠ next)
    (hback : back tmp ≠ some p) :
    splicedNext links back node next tmp behind p = links p := by
  rw [splicedNext, updateAt_of_ne hback, Function.update_of_ne hnext, Function.update_of_ne hnode]

/-- The moved node leads to the node it is put before. -/
theorem splicedNext_next {behind : Option ℕ} (hback : back tmp ≠ some next) :
    splicedNext links back node next tmp behind next = some tmp := by
  rw [splicedNext, updateAt_of_ne hback, Function.update_self]

/-- From the place on, the nodes without the moved one are linked. -/
theorem spliced_tail (hback : BackLinks data back (before ++ tmp :: after ++ next :: rest))
    (hnode : tmp :: after = mid ++ [node])
    (hmid : LinkPath links (some tmp) (tmp :: after) (some next))
    (hrest : LinkPath links rest.head? rest none) :
    LinkPath (splicedNext links back node next tmp rest.head?) (some tmp)
      (tmp :: after ++ rest) none := by
  have hnodup := hback.nodup
  have hlater := hback.later
  rw [List.append_assoc, List.nodup_append, List.nodup_append, List.nodup_cons (a := next)] at hnodup
  obtain ⟨-, ⟨hmidNodup, ⟨hnextRest, -⟩, hapart⟩, -⟩ := hnodup
  have hside : ∀ p ∈ tmp :: after ++ next :: rest, back tmp ≠ some p := by
    intro p hp
    rw [List.append_assoc, List.pairwise_append] at hlater
    rw [List.cons_append] at hp hlater
    rcases List.mem_cons.mp hp with rfl | hp
    · exact hback.self p (by simp)
    · exact (List.pairwise_cons.mp hlater.2.1).1 p hp
  have hnodeMem : node ∈ tmp :: after := by
    rw [hnode]
    exact List.mem_append_right mid List.mem_cons_self
  rw [linkPath_append]
  refine ⟨rest.head?, ?_, ?_⟩
  · rw [hnode, linkPath_concat] at hmid ⊢
    rw [hnode] at hmidNodup hapart hside
    have hmidNode := (List.nodup_append.mp hmidNodup).2.2
    refine ⟨hmid.1.congr fun p hp => ?_, ?_⟩
    · exact splicedNext_of_ne (hmidNode p hp node List.mem_cons_self)
        (hapart p (List.mem_append_left _ hp) next List.mem_cons_self)
        (hside p (List.mem_append_left _ (List.mem_append_left _ hp)))
    · have hne : node ≠ next := hapart node (hnode ▸ hnodeMem) next List.mem_cons_self
      rw [splicedNext, updateAt_of_ne (hside node (List.mem_append_left _ (hnode ▸ hnodeMem))),
        Function.update_of_ne hne,
        Function.update_self]
  · refine hrest.congr fun p hp => ?_
    exact splicedNext_of_ne (fun heq => hapart node hnodeMem p (List.mem_cons_of_mem _ hp) heq.symm)
      (fun heq => hnextRest (heq ▸ hp)) (hside p (List.mem_append_right _ (List.mem_cons_of_mem _ hp)))

/-- An entry of a list without repetitions is the last one if nothing follows it. -/
theorem getLast?_middle {a b : List ℕ} {q : ℕ} (hnodup : (a ++ q :: b).Nodup) :
    (a ++ q :: b).getLast? = some q ↔ b = [] := by
  constructor
  · intro hlast
    rcases List.eq_nil_or_concat b with rfl | ⟨b, r, rfl⟩
    · rfl
    · rw [List.concat_eq_append, ← List.cons_append, ← List.append_assoc, List.getLast?_concat] at hlast
      cases hlast
      rw [List.nodup_append, List.nodup_cons] at hnodup
      simp at hnodup
  · rintro rfl
    exact List.getLast?_concat

/-- What is left of the nodes before the place, and the moved one behind them if it is still reached. -/
theorem spliced_front {start : Option ℕ}
    (hback : BackLinks data back (before ++ tmp :: after ++ next :: rest))
    (hnode : tmp :: after = mid ++ [node])
    (hpath : LinkPath links start (before ++ tmp :: after ++ next :: rest) none) :
    ∃ front, LinkPath (splicedNext links back node next tmp rest.head?)
      (if (back tmp).isNone then some next else start)
        (front ++ (tmp :: after ++ rest)) none ∧
      front.Sublist (before ++ [next]) ∧ (front = before ++ [next] ↔ back tmp = before.getLast?) := by
  rw [List.append_assoc, linkPath_append] at hpath
  obtain ⟨place, hbefore, hplace⟩ := hpath
  obtain rfl : place = some tmp := hplace.1
  rw [linkPath_append] at hplace
  obtain ⟨moved, hmid, rfl, hrest⟩ := hplace
  have htail := spliced_tail hback hnode hmid (hrest.start_eq.trans (Option.or_none ..) ▸ hrest)
  have hnodup := hback.nodup
  rw [List.append_assoc, List.nodup_append] at hnodup
  obtain ⟨hbeforeNodup, -, hapart⟩ := hnodup
  have hnodeMem : node ∈ tmp :: after := by
    rw [hnode]
    exact List.mem_append_right mid List.mem_cons_self
  have hoff : ∀ p ∈ before, p ≠ node ∧ p ≠ next := by
    intro p hp
    exact ⟨hapart p hp node (List.mem_append_left _ hnodeMem),
      hapart p hp next (List.mem_append_right _ List.mem_cons_self)⟩
  cases hq : back tmp with
  | none =>
    refine ⟨[next], ⟨rfl, ?_⟩, List.sublist_append_right _ _, ?_⟩
    · rw [splicedNext_next (by rw [hq]; exact nofun)]
      exact htail
    · rw [eq_comm (a := none), List.getLast?_eq_none_iff]
      constructor
      · intro heq
        simpa using congrArg List.length heq
      · rintro rfl
        rfl
  | some q =>
    by_cases hmem : q ∈ before
    · obtain ⟨a, b, rfl⟩ := List.append_of_mem hmem
      refine ⟨a ++ [q, next], ?_, ?_, ?_⟩
      · rw [linkPath_append] at hbefore
        obtain ⟨entry, ha, hb⟩ := hbefore
        obtain rfl : entry = some q := hb.1
        have haq : ∀ p ∈ a, p ≠ q := fun p hp heq =>
          (List.nodup_append.mp hbeforeNodup).2.2 p hp q List.mem_cons_self heq
        rw [List.append_assoc, linkPath_append]
        refine ⟨some q, ha.congr fun p hp => ?_, rfl, ?_, ?_⟩
        · have hp' := hoff p (List.mem_append_left _ hp)
          exact splicedNext_of_ne hp'.1 hp'.2 fun heq =>
            haq p hp (Option.some.inj (hq.symm.trans heq)).symm
        · rw [splicedNext, hq]
          exact Function.update_self ..
        · rw [splicedNext_next]
          · exact htail
          · rw [hq]
            exact fun heq => (hoff q hmem).2 (Option.some.inj heq)
      · simp
      · rw [eq_comm (a := some q), getLast?_middle hbeforeNodup]
        constructor
        · intro heq
          simpa using congrArg List.length heq
        · rintro rfl
          simp
    · refine ⟨before, ?_, List.sublist_append_left _ _, ?_⟩
      · rw [linkPath_append]
        refine ⟨some tmp, hbefore.congr fun p hp => ?_, htail⟩
        exact splicedNext_of_ne (hoff p hp).1 (hoff p hp).2
          (fun heq => hmem (Option.some.inj (hq.symm.trans heq) ▸ hp))
      · constructor
        · intro heq
          simp at heq
        · exact fun heq => (hmem (List.mem_of_getLast? heq.symm)).elim

end Splice

section Round

variable {data : ℕ → Option ExtData} {list : ExtDataList} {done before after rest : List ℕ}
  {top node next tmp : ℕ}

/-- A node for which there is no place stays. -/
theorem SortState.stays (hstate : SortState data list.heap (some top) (done ++ next :: rest))
    {fuel : ℕ} (hfuel : done.length < fuel)
    (hfail : ∀ p ∈ done, ¬ PlaceHere data (prevOf list.heap p) p next) :
    sortPlace list top node next fuel (some top) = some (list, top) := by
  obtain ⟨rfl, hpath, hback⟩ := hstate
  obtain ⟨fuel, rfl⟩ : ∃ k, fuel = k + 1 + done.length := ⟨fuel - 1 - done.length, by omega⟩
  rw [linkPath_append] at hpath
  obtain ⟨place, hdone, hplace⟩ := hpath
  obtain rfl : place = some next := hplace.1
  have hfresh : next ∉ done :=
    fun hmem => (List.nodup_append.mp hback.nodup).2.2 next hmem next List.mem_cons_self rfl
  rw [sortPlace_pass (fuel + 1) hdone (hback.alloc next (by simp)) hfresh
    (fun p hp => hback.alloc p (by simp [hp]))
    (fun p hp => hback.backAlloc p (by simp [hp])) hfail, sortPlace, if_pos rfl]

/-- A node is put before the first one that passes the test. -/
theorem SortState.moves
    (hstate : SortState data list.heap (some top) (before ++ tmp :: after ++ next :: rest))
    (hstart : list.pList = some top) (hnode : (tmp :: after).getLast? = some node) {fuel : ℕ}
    (hfuel : (before ++ tmp :: after).length < fuel)
    (hfail : ∀ p ∈ before, ¬ PlaceHere data (prevOf list.heap p) p next)
    (hpass : PlaceHere data (prevOf list.heap tmp) tmp next) :
    ∃ list' top' front, sortPlace list top node next fuel (some top) = some (list', top') ∧
      list'.pList = some top' ∧
      SortState data list'.heap (some top') (front ++ (tmp :: after ++ rest)) ∧
      front.Sublist (before ++ [next]) ∧
      (front = before ++ [next] ↔ prevOf list.heap tmp = before.getLast?) ∧
      prevOf list'.heap = splicedPrev (nextOf list.heap) (prevOf list.heap) node next tmp rest.head? ∧
      splicedNext (nextOf list.heap) (prevOf list.heap) node next tmp rest.head? tmp =
      (after ++ rest).head? := by
  obtain ⟨rfl, hpath, hback⟩ := hstate
  obtain ⟨mid, hmid⟩ := List.getLast?_eq_some_iff.mp hnode
  obtain ⟨fuel, rfl⟩ : ∃ k, fuel = k + 1 + before.length :=
    ⟨fuel - 1 - before.length, by rw [List.length_append] at hfuel; omega⟩
  obtain ⟨front, hfront, hsub, hiff⟩ := spliced_front hback hmid hpath
  have hnodup := hback.nodup
  rw [List.append_assoc, linkPath_append] at hpath
  obtain ⟨place, hbefore, hplace⟩ := hpath
  obtain rfl : place = some tmp := hplace.1
  rw [linkPath_append] at hplace
  obtain ⟨moved, hplace, rfl, hrest⟩ := hplace
  rw [List.append_assoc, List.nodup_append, List.nodup_append, List.nodup_cons,
    List.nodup_cons] at hnodup
  obtain ⟨-, ⟨⟨htmpAfter, -⟩, ⟨hnextRest, -⟩, hapart⟩, hoff⟩ := hnodup
  have htmpNext : tmp ≠ next := hapart tmp List.mem_cons_self next List.mem_cons_self
  have hself := hback.self tmp (by simp)
  have hright := @splicedNext_tmp _ _ after mid rest _ _ _ htmpNext htmpAfter hmid hself hplace
  have hsplice := hback.splice hmid hright
  have hnodeMem : node ∈ tmp :: after := List.mem_of_getLast? hnode
  have hnextAlloc := hback.alloc next (by simp)
  have htmpAlloc := hback.alloc tmp (by simp)
  have hbehind : nextOf list.heap next = rest.head? := hrest.start_eq.trans (Option.or_none ..)
  obtain ⟨h', hspliced, hdata, hnext', hprev'⟩ := spliceBefore_fields hbehind
    (fun heq => hapart node hnodeMem next List.mem_cons_self heq.symm) htmpNext.symm
    (fun heq => hapart tmp List.mem_cons_self tmp
      (List.mem_cons_of_mem _ (List.mem_of_mem_head? heq)) rfl)
    (hback.alloc node (List.mem_append_left _ (List.mem_append_right _ hnodeMem))) hnextAlloc htmpAlloc
    (fun q hq => hback.alloc q (by simp [List.mem_of_mem_head? hq])) (hback.backAlloc tmp (by simp))
    (fun q hq => hback.alloc q (by
      have hmem := List.mem_of_mem_head? (hright.symm.trans hq)
      simp only [List.mem_append, List.mem_cons] at hmem ⊢
      tauto))
  have hfresh : next ∉ before := fun hmem => hoff next hmem next (by simp) rfl
  obtain ⟨tmpNode, htmp, -, htmpPrev⟩ := exists_node htmpAlloc
  obtain ⟨nextNode, hnext, -, -⟩ := exists_node hnextAlloc
  have hpass' := hpass.1
  rw [addrAt_dataOf htmp, addrAt_dataOf hnext] at hpass'
  have hplaced : sortPlace list top node next (fuel + 1 + before.length) (some top) =
      some (⟨h', list.n, if (prevOf list.heap tmp).isNone then some next else list.pList⟩,
        if (prevOf list.heap tmp).isNone then next else top) := by
    rw [sortPlace_pass (fuel + 1) hbefore hnextAlloc hfresh (fun p hp => hback.alloc p (by simp [hp]))
      (fun p hp => hback.backAlloc p (by simp [hp])) hfail, sortPlace,
        if_neg fun heq => htmpNext (Option.some.inj heq)]
    simp only [Option.bind_eq_bind, Option.bind_some, htmp, hnext, htmpPrev]
    cases hq : prevOf list.heap tmp with
    | none =>
      rw [hq] at hspliced
      simp only [if_pos hpass', Option.isNone_none] at hspliced ⊢
      rw [hspliced]
      rfl
    | some q =>
      obtain ⟨qNode, hqNode, -, -⟩ := exists_node (hback.backAlloc tmp (by simp) q hq)
      have hge := hpass.2 q hq
      rw [addrAt_dataOf hqNode, addrAt_dataOf hnext] at hge
      rw [hq] at hspliced
      simp only [hqNode, Option.bind_some, if_pos (And.intro hge hpass'), Option.isNone_some]
        at hspliced ⊢
      rw [hspliced]
      rfl
  refine ⟨_, _, front, hplaced, ?_, ⟨hdata, ?_, ?_⟩, hsub, hiff, hprev', hright⟩
  · split
    · rfl
    · exact hstart
  · rw [hnext']
    split at hfront <;> simp_all
  · rw [hprev']
    refine hsplice.sublist ?_
    simpa using hsub.append_right (tmp :: after ++ rest)

end Round

end DasEdge.VarManage
