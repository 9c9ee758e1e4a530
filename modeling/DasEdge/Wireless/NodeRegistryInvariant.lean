import DasEdge.Wireless.NodeRegistry
import Mathlib.Data.List.Nodup

/-!
# The registry keeps its links

What the registry holds is a list of entries, each with its own list of sub-nodes. Every call keeps
the links of both kinds of lists, with no node in two of them and none lost, and changes the entries
as a call on a plain list would.
-/

namespace DasEdge.Wireless

open DasEdge.Library

/-- A node of the registry with its sub-nodes. -/
structure NodeEntry (ν δ : Type) where
  addr : ℕ
  netid : ν
  online : Bool
  data : δ
  subs : List (ℕ × Snode)

variable {ν δ : Type}

/-- The node as it is linked. -/
def NodeEntry.link (e : NodeEntry ν δ) : ℕ × Mnode ν δ :=
  (e.addr, ⟨e.netid, e.online, e.data, (linkAddrs e.subs).head?⟩)

/-- The types of the sub-nodes. -/
def NodeEntry.types (e : NodeEntry ν δ) : List UInt8 := e.subs.map fun x => x.2.type

/-- The registry holds entries: the nodes and each node's sub-nodes lie linked, in separate lists
that are all there is, no network id occurs twice, and no type within a node. -/
structure Registered (reg : NodeRegistry ν δ) (entries : List (NodeEntry ν δ)) : Prop where
  linked : LinkedList reg.mnodes reg.start (entries.map NodeEntry.link)
  alloc : ∀ p, (reg.mnodes p).isSome = true ↔ p ∈ entries.map NodeEntry.addr
  sublinked : ∀ e ∈ entries, LinkedList reg.snodes (linkAddrs e.subs).head? e.subs
  separate : (entries.flatMap fun e => linkAddrs e.subs).Nodup
  suballoc : ∀ q, (reg.snodes q).isSome = true ↔ ∃ e ∈ entries, q ∈ linkAddrs e.subs
  netids : (entries.map NodeEntry.netid).Nodup
  types : ∀ e ∈ entries, e.types.Nodup

/-- The addresses of the nodes. -/
theorem linkAddrs_link (entries : List (NodeEntry ν δ)) :
    linkAddrs (entries.map NodeEntry.link) = entries.map NodeEntry.addr := by
  simp [linkAddrs, NodeEntry.link, Function.comp_def]

/-- An entry between others. -/
theorem map_link_append (left right : List (NodeEntry ν δ)) (e : NodeEntry ν δ) :
    (left ++ e :: right).map NodeEntry.link = left.map NodeEntry.link ++ e.link ::
      right.map NodeEntry.link := by
  rw [List.map_append, List.map_cons]

/-- Members of a list in which an entry is between others. -/
theorem forall_mem_between {α : Type} {P : α → Prop} {left right : List α} {e : α} :
    (∀ x ∈ left ++ e :: right, P x) ↔ P e ∧ ∀ x ∈ left ++ right, P x := by
  simp only [List.mem_append, List.mem_cons]
  constructor
  · exact fun h => ⟨h e (.inr (.inl rfl)), fun x hx => h x (hx.imp_right .inr)⟩
  · rintro ⟨he, hothers⟩ x (hx | rfl | hx)
    · exact hothers x (.inl hx)
    · exact he
    · exact hothers x (.inr hx)

/-- Addresses of sub-nodes of an entry and of the others. -/
theorem separate_between {left right : List (NodeEntry ν δ)} {e : NodeEntry ν δ} :
    ((left ++ e :: right).flatMap fun e => linkAddrs e.subs).Nodup ↔
      (linkAddrs e.subs).Nodup ∧ ((left ++ right).flatMap fun e => linkAddrs e.subs).Nodup ∧
        ∀ q ∈ linkAddrs e.subs, ∀ x ∈ left ++ right, q ∉ linkAddrs x.subs := by
  rw [(List.Perm.flatMap_right _ List.perm_middle).nodup_iff, List.flatMap_cons, List.nodup_append]
  refine and_congr_right fun _ => and_congr_right fun _ => ?_
  simp only [List.mem_flatMap]
  exact ⟨fun h q hq x hx hmem => h q hq q ⟨x, hx, hmem⟩ rfl,
    fun h q hq r ⟨x, hx, hmem⟩ heq => h q hq x hx (heq ▸ hmem)⟩

section Between

variable {reg : NodeRegistry ν δ} {left right : List (NodeEntry ν δ)} {e : NodeEntry ν δ}

/-- The node of an entry. -/
theorem Registered.node (hreg : Registered reg (left ++ e :: right)) :
    ∃ next prev, reg.mnodes e.addr = some ⟨e.link.2, next, prev⟩ ∧
      next = (linkAddrs (right.map NodeEntry.link)).head? := by
  have hlinked := hreg.linked
  rw [map_link_append] at hlinked
  exact ⟨_, _, hlinked.node, rfl⟩

/-- The sub-nodes of an entry. -/
theorem Registered.subs (hreg : Registered reg (left ++ e :: right)) :
    LinkedList reg.snodes (linkAddrs e.subs).head? e.subs :=
  hreg.sublinked e (by simp)

/-- An entry is replaced by one with the same network id, when its node and the list of its
sub-nodes are, in which addresses that were free may be new. -/
theorem Registered.replace (hreg : Registered reg (left ++ e :: right)) (e' : NodeEntry ν δ)
    (snodes : LinkHeap Snode) (ps : List ℕ)
    (haddr : e'.addr = e.addr) (hnetid : e'.netid = e.netid) (htypes : e'.types.Nodup)
    (hsubs : LinkedList snodes (linkAddrs e'.subs).head? e'.subs) (hat : ChangedAt reg.snodes snodes ps)
    (hps : ∀ x ∈ left ++ right, ∀ q ∈ linkAddrs x.subs, q ∉ ps)
    (hnew : ∀ q ∈ linkAddrs e'.subs, q ∉ linkAddrs e.subs → (reg.snodes q).isSome = false)
    (halloc : ∀ q, (snodes q).isSome = true ↔ q ∈ linkAddrs e'.subs ∨ q ∉ linkAddrs e.subs ∧
      (reg.snodes q).isSome = true) :
    ∃ mnodes, setData reg.mnodes e.addr e'.link.2 = some mnodes ∧
      Registered { reg with mnodes := mnodes, snodes := snodes } (left ++ e' :: right) := by
  have hlinked := hreg.linked
  rw [map_link_append] at hlinked
  obtain ⟨mnodes, hset, hlinked', hsome, -⟩ := hlinked.setData e'.link.2
  obtain ⟨hsub, hothers⟩ := forall_mem_between.mp hreg.sublinked
  obtain ⟨-, hothersTypes⟩ := forall_mem_between.mp hreg.types
  obtain ⟨hnodup, hseparate, hdisjoint⟩ := separate_between.mp hreg.separate
  have hlink : (e.addr, e'.link.2) = e'.link := by rw [← haddr]; rfl
  have hfree : ∀ q ∈ linkAddrs e'.subs, ∀ x ∈ left ++ right, q ∉ linkAddrs x.subs := by
    intro q hq x hx hmem
    by_cases hold : q ∈ linkAddrs e.subs
    · exact hdisjoint q hold x hx hmem
    · have hx' : x ∈ left ++ e :: right := by
        simp only [List.mem_append, List.mem_cons] at hx ⊢
        exact hx.imp_right .inr
      have hthere := (hreg.suballoc q).mpr ⟨x, hx', hmem⟩
      rw [hnew q hq hold] at hthere
      cases hthere
  refine ⟨mnodes, hset, ?_, ?_, ?_, ?_, ?_, ?_, ?_⟩
  · rw [map_link_append, ← hlink]
    exact hlinked'
  · intro p
    rw [hsome, hreg.alloc]
    simp [haddr]
  · exact forall_mem_between.mpr ⟨hsubs, fun x hx => (hothers x hx).congr hat (hps x hx)⟩
  · exact separate_between.mpr ⟨hsubs.nodup, hseparate, hfree⟩
  · intro q
    rw [halloc, hreg.suballoc]
    simp only [List.mem_append, List.mem_cons]
    constructor
    · rintro (hq | ⟨hq, x, hx | rfl | hx, hmem⟩)
      · exact ⟨e', .inr (.inl rfl), hq⟩
      · exact ⟨x, .inl hx, hmem⟩
      · exact absurd hmem hq
      · exact ⟨x, .inr (.inr hx), hmem⟩
    · rintro ⟨x, hx | rfl | hx, hmem⟩
      · exact .inr ⟨fun hold => hdisjoint q hold x (List.mem_append_left _ hx) hmem, x, .inl hx, hmem⟩
      · exact .inl hmem
      · exact .inr ⟨fun hold => hdisjoint q hold x (List.mem_append_right _ hx) hmem, x,
          .inr (.inr hx), hmem⟩
  · have hnetids := hreg.netids
    simpa only [List.map_append, List.map_cons, hnetid] using hnetids
  · exact forall_mem_between.mpr ⟨htypes, hothersTypes⟩

/-- The fields of a node are written. -/
theorem Registered.setFields (hreg : Registered reg (left ++ e :: right)) (online : Bool) (data : δ) :
    ∃ mnodes, setData reg.mnodes e.addr { e.link.2 with online := online, data := data } = some mnodes ∧
      Registered { reg with mnodes := mnodes }
      (left ++ { e with online := online, data := data } :: right) :=
  hreg.replace { e with online := online, data := data } reg.snodes [] rfl rfl
    (hreg.types e (by simp)) hreg.subs
    (.refl _ _) (fun _ _ _ _ => List.not_mem_nil) (fun q hq hnot => absurd hq hnot)
    (fun q => ⟨fun h => (em _).imp_right fun hnot => ⟨hnot, h⟩, fun h => h.elim
      (fun hq => (hreg.suballoc q).mpr ⟨e, by simp, hq⟩) fun h => h.2⟩)

/-- Without the sub-node of a type. -/
def NodeEntry.without (e : NodeEntry ν δ) (type : UInt8) : NodeEntry ν δ :=
  { e with subs := e.subs.filter fun x => x.2.type ≠ type }

/-- Of distinct types the one of a sub-node is found there only. -/
theorem filter_type_between {xs ys : List (ℕ × Snode)} {x : ℕ × Snode}
    (hnodup : ((xs ++ x :: ys).map fun x => x.2.type).Nodup) :
    (xs ++ x :: ys).filter (fun y => y.2.type ≠ x.2.type) = xs ++ ys := by
  rw [List.map_append, List.map_cons, List.nodup_append, List.nodup_cons] at hnodup
  obtain ⟨-, ⟨hright, -⟩, hleft⟩ := hnodup
  have hkeep (zs : List (ℕ × Snode)) (hzs : x.2.type ∉ zs.map fun x => x.2.type) :
      zs.filter (fun y => y.2.type ≠ x.2.type) = zs := by
    rw [List.filter_eq_self]
    intro y hy
    exact decide_eq_true fun heq =>
      hzs (heq ▸ List.mem_map_of_mem (f := fun x : ℕ × Snode => x.2.type) hy)
  have hxs : x.2.type ∉ xs.map fun x => x.2.type := fun hmem => hleft _ hmem _ List.mem_cons_self rfl
  rw [List.filter_append, List.filter_cons, hkeep xs hxs, hkeep ys hright]
  simp

/-- The sub-node of a type is removed. -/
theorem Registered.snodeRmOne (hreg : Registered reg (left ++ e :: right)) {fuel : ℕ}
    (hfuel : e.subs.length < fuel) (type : UInt8) :
    ∃ reg', Wireless.snodeRmOne fuel reg e.addr type = some reg' ∧
      Registered reg' (left ++ e.without type :: right) := by
  obtain ⟨next, prev, hnode, -⟩ := hreg.node
  have hfind := hreg.subs.find hfuel fun snode => decide (snode.type = type)
  have hsnode : e.link.2.snode = (linkAddrs e.subs).head? := rfl
  cases hget : e.subs.find? fun x => decide (x.2.type = type) with
  | none =>
    have hsame : e.without type = e := by
      have hall : e.subs.filter (fun x => x.2.type ≠ type) = e.subs := by
        rw [List.filter_eq_self]
        intro x hx
        have hne := List.find?_eq_none.mp hget x hx
        simpa using hne
      rw [NodeEntry.without, hall]
    rw [hget] at hfind
    refine ⟨reg, ?_, hsame.symm ▸ hreg⟩
    simp only [Wireless.snodeRmOne, hnode, hsnode, hfind, Option.bind_eq_bind, Option.bind_some,
      Option.map_none]
  | some x =>
    obtain ⟨q, snode⟩ := x
    obtain ⟨htype, xs, ys, hsplit, -⟩ := List.find?_eq_some_iff_append.mp hget
    obtain rfl : snode.type = type := of_decide_eq_true htype
    rw [hget] at hfind
    have hsubs := hreg.subs
    have htypes := hreg.types e (by simp)
    obtain ⟨-, -, hdisjoint⟩ := separate_between.mp hreg.separate
    have hwithout : (e.without snode.type).subs = xs ++ ys := by
      rw [NodeEntry.types, hsplit] at htypes
      have hfilter := filter_type_between htypes
      simpa only [NodeEntry.without, hsplit] using hfilter
    rw [hsplit] at hsubs
    obtain ⟨snodes, start, hunlink, hlinked, hsome, hat⟩ := hsubs.unlink
    obtain ⟨hnotLeft, hnotRight⟩ := hsubs.disjoint
    have hstart := hlinked.start_eq
    rw [hstart] at hunlink hlinked
    have halloc : ∀ r, (snodes r).isSome = true ↔
        r ∈ linkAddrs (e.without snode.type).subs ∨ r ∉ linkAddrs e.subs ∧
        (reg.snodes r).isSome = true := by
      intro r
      rw [hsome, hwithout, hsplit]
      have hsub : r ∈ linkAddrs (xs ++ (q, snode) :: ys) → (reg.snodes r).isSome = true := fun hr =>
        (hreg.suballoc r).mpr ⟨e, by simp, hsplit ▸ hr⟩
      simp only [linkAddrs_append, linkAddrs_cons, List.mem_append, List.mem_cons] at hsub ⊢
      grind
    obtain ⟨mnodes, hset, hreg'⟩ :=
      hreg.replace (e.without snode.type) snodes (linkAddrs e.subs) rfl rfl
      (htypes.sublist (List.Sublist.map _ List.filter_sublist)) (by rw [hwithout]; exact hlinked)
        (by rw [hsplit]; exact hat)
      (fun x hx q hq hmem => hdisjoint q hmem x hx hq)
      (fun r hr hnot => absurd (List.Sublist.subset (List.Sublist.map _ List.filter_sublist) hr)
        hnot) halloc
    refine ⟨_, ?_, hreg'⟩
    simp only [Wireless.snodeRmOne, hnode, hsnode, hfind, Option.bind_eq_bind, Option.bind_some,
      Option.map_some]
    rw [hsplit, hunlink]
    simp only [Option.bind_some]
    have hlink : { e.link.2 with snode := (linkAddrs (xs ++ ys)).head? } =
        (e.without snode.type).link.2 := by
      rw [← hwithout]
      rfl
    rw [hlink, hset]
    rfl

/-- Without sub-nodes. -/
def NodeEntry.bare (e : NodeEntry ν δ) : NodeEntry ν δ := { e with subs := [] }

/-- All sub-nodes of a node are removed. -/
theorem Registered.snodeRmAll (hreg : Registered reg (left ++ e :: right)) {fuel : ℕ}
    (hfuel : e.subs.length < fuel) :
    ∃ reg', Wireless.snodeRmAll fuel reg e.addr = some reg' ∧ reg'.start = reg.start ∧
      Registered reg' (left ++ e.bare :: right) := by
  obtain ⟨next, prev, hnode, -⟩ := hreg.node
  obtain ⟨last, hseg⟩ := hreg.subs.linked
  obtain ⟨snodes, hfree, hsome, hat⟩ := freeLinks_eq hfuel hreg.subs.nodup hseg
  obtain ⟨-, -, hdisjoint⟩ := separate_between.mp hreg.separate
  obtain ⟨mnodes, hset, hreg'⟩ := hreg.replace e.bare snodes (linkAddrs e.subs) rfl rfl List.nodup_nil
    ⟨List.nodup_nil, none, rfl, rfl⟩ hat (fun x hx q hq hmem => hdisjoint q hmem x hx hq)
    (fun q hq => absurd hq List.not_mem_nil) (fun q => by rw [hsome]; simp [NodeEntry.bare])
  refine ⟨{ reg with mnodes := mnodes, snodes := snodes }, ?_, rfl, hreg'⟩
  have hsnode : e.link.2.snode = (linkAddrs e.subs).head? := rfl
  have hlink : { e.link.2 with snode := none } = e.bare.link.2 := rfl
  simp only [Wireless.snodeRmAll, hnode, hsnode, hfree, hlink, hset, Option.bind_eq_bind,
    Option.bind_some]

/-- With a sub-node more at the end. -/
def NodeEntry.withSub (e : NodeEntry ν δ) (q : ℕ) (snode : Snode) : NodeEntry ν δ :=
  { e with subs := e.subs ++ [(q, snode)] }

/-- What is free is no sub-node. -/
theorem Registered.fresh {entries : List (NodeEntry ν δ)} (hreg : Registered reg entries) {q : ℕ}
    (hfresh : reg.snodes q = none)
    {x : NodeEntry ν δ} (hx : x ∈ entries) : q ∉ linkAddrs x.subs := by
  intro hmem
  have hthere := (hreg.suballoc q).mpr ⟨x, hx, hmem⟩
  rw [hfresh] at hthere
  cases hthere

/-- The types that are left without one. -/
theorem NodeEntry.not_mem_types_without (e : NodeEntry ν δ) (type : UInt8) :
    type ∉ (e.without type).types := by
  intro hmem
  obtain ⟨x, hx, htype⟩ := List.mem_map.mp hmem
  exact of_decide_eq_true (List.mem_filter.mp hx).2 htype

/-- A sub-node is appended. -/
theorem Registered.append (hreg : Registered reg (left ++ e :: right)) {fuel : ℕ}
    (hfuel : e.subs.length ≤ fuel) {q : ℕ}
    (hfresh : reg.snodes q = none) (snode : Snode) (htype : snode.type ∉ e.types) :
    ∃ snodes start mnodes, appendLink fuel (Function.update reg.snodes q (some ⟨snode, none, none⟩))
      e.link.2.snode q =
        some (snodes, start) ∧ setData reg.mnodes e.addr { e.link.2 with snode := start } =
        some mnodes ∧
      Registered { reg with mnodes := mnodes, snodes := snodes }
      (left ++ e.withSub q snode :: right) := by
  have hnot := hreg.fresh hfresh (x := e) (by simp)
  have hother (x : NodeEntry ν δ) (hx : x ∈ left ++ right) : q ∉ linkAddrs x.subs := by
    refine hreg.fresh hfresh ?_
    simp only [List.mem_append, List.mem_cons] at hx ⊢
    exact hx.imp_right .inr
  obtain ⟨-, -, hdisjoint⟩ := separate_between.mp hreg.separate
  have hadded := changedAt_update reg.snodes (some ⟨snode, none, none⟩) (List.mem_singleton_self q)
  have hlinked := hreg.subs.congr hadded fun r hr hmem => hnot (List.mem_singleton.mp hmem ▸ hr)
  obtain ⟨snodes, start, happend, hlinked', hsome, hat⟩ :=
    hlinked.append hfuel hnot (Function.update_self ..)
  have hstart := hlinked'.start_eq
  subst hstart
  have htypes : (e.withSub q snode).types.Nodup := by
    rw [NodeEntry.types, NodeEntry.withSub, List.map_append, List.nodup_append]
    refine ⟨hreg.types e (by simp), List.nodup_singleton _, ?_⟩
    rintro t ht t' ht' rfl
    obtain rfl := List.mem_singleton.mp ht'
    exact htype ht
  have hall : ChangedAt reg.snodes snodes (linkAddrs (e.subs ++ [(q, snode)])) :=
    (hadded.mono fun r hr => by simp [List.mem_singleton.mp hr]).trans hat
  have hmem (r : ℕ) : r ∈ linkAddrs (e.withSub q snode).subs ↔ r ∈ linkAddrs e.subs ∨ r = q := by
    simp [NodeEntry.withSub]
  have hdistinct : ∀ x ∈ left ++ right, ∀ r ∈ linkAddrs x.subs,
      r ∉ linkAddrs (e.withSub q snode).subs := by
    intro x hx r hr hnew
    rcases (hmem r).mp hnew with hold | rfl
    · exact hdisjoint r hold x hx hr
    · exact hother x hx hr
  have hnew : ∀ r ∈ linkAddrs (e.withSub q snode).subs, r ∉ linkAddrs e.subs →
      (reg.snodes r).isSome = false := by
    intro r hr hold
    obtain rfl := ((hmem r).mp hr).resolve_left hold
    rw [hfresh]
    rfl
  have halloc : ∀ r, (snodes r).isSome = true ↔
      r ∈ linkAddrs (e.withSub q snode).subs ∨ r ∉ linkAddrs e.subs ∧ (reg.snodes r).isSome = true := by
    intro r
    rw [hsome, hmem]
    by_cases hr : r = q
    · simp [hr]
    · have hin : r ∈ linkAddrs e.subs → (reg.snodes r).isSome = true :=
        fun h => (hreg.suballoc r).mpr ⟨e, by simp, h⟩
      rw [Function.update_of_ne hr]
      grind
  obtain ⟨mnodes, hset, hreg'⟩ :=
    hreg.replace (e.withSub q snode) snodes _ rfl rfl htypes hlinked' hall hdistinct hnew halloc
  exact ⟨snodes, _, mnodes, happend, hset, hreg'⟩

/-- A sub-node for announced addresses takes the place of the one of its type, at the end. -/
theorem Registered.snodeInsert (hreg : Registered reg (left ++ e :: right)) {fuel : ℕ}
    (hfuel : e.subs.length < fuel) {q : ℕ}
    (hfresh : reg.snodes q = none) (info : SnodeInfo) :
    ∃ reg', Wireless.snodeInsert fuel reg e.addr q info = some reg' ∧
      Registered reg' (left ++ (e.without info.type).withSub q ⟨info.type, info.cnt, info.lst⟩ ::
      right) := by
  obtain ⟨reg₁, hrm, hreg₁⟩ := hreg.snodeRmOne hfuel info.type
  have hfresh₁ : reg₁.snodes q = none := by
    rw [← Option.not_isSome_iff_eq_none, hreg₁.suballoc]
    rintro ⟨x, hx, hmem⟩
    simp only [List.mem_append, List.mem_cons] at hx
    rcases hx with hx | rfl | hx
    · exact hreg.fresh hfresh (by simp [hx]) hmem
    · exact hreg.fresh hfresh (x := e) (by simp)
        (List.Sublist.subset (List.Sublist.map _ List.filter_sublist) hmem)
    · exact hreg.fresh hfresh (by simp [hx]) hmem
  have hlength : (e.without info.type).subs.length ≤ e.subs.length := List.length_filter_le _ _
  obtain ⟨snodes, start, mnodes, happend, hset, hreg'⟩ :=
    hreg₁.append (Nat.le_trans hlength (Nat.le_of_lt hfuel)) hfresh₁
    ⟨info.type, info.cnt, info.lst⟩ (e.not_mem_types_without info.type)
  obtain ⟨next, prev, hnode, -⟩ := hreg₁.node
  refine ⟨_, ?_, hreg'⟩
  have haddr : (e.without info.type).addr = e.addr := rfl
  rw [haddr] at hnode hset
  simp only [Wireless.snodeInsert, hrm, hnode, happend, hset, Option.bind_eq_bind, Option.bind_some]

/-- A node is taken out. -/
theorem Registered.mnodeRm (hreg : Registered reg (left ++ e :: right)) {fuel : ℕ}
    (hfuel : e.subs.length < fuel) :
    ∃ reg', Wireless.mnodeRm fuel reg e.addr = some reg' ∧ Registered reg' (left ++ right) := by
  obtain ⟨reg₁, hrm, -, hreg₁⟩ := hreg.snodeRmAll hfuel
  have hlinked := hreg₁.linked
  rw [map_link_append] at hlinked
  obtain ⟨mnodes, start, hunlink, hlinked', hsome, -⟩ := hlinked.unlink
  rw [← List.map_append] at hlinked'
  obtain ⟨hnotLeft, hnotRight⟩ := hlinked.disjoint
  refine ⟨{ reg₁ with mnodes := mnodes, start := start }, ?_, hlinked', fun p => ?_, ?_, ?_,
    fun q => ?_, ?_, ?_⟩
  · have haddr : e.bare.addr = e.addr := rfl
    rw [haddr] at hunlink
    simp only [Wireless.mnodeRm, hrm, hunlink, Option.bind_eq_bind, Option.bind_some]
  · rw [linkAddrs_link] at hnotLeft hnotRight
    rw [hsome, hreg₁.alloc]
    simp only [List.map_append, List.map_cons, List.mem_append, List.mem_cons]
    grind
  · exact (forall_mem_between.mp hreg₁.sublinked).2
  · exact (separate_between.mp hreg₁.separate).2.1
  · rw [hreg₁.suballoc]
    simp only [List.mem_append, List.mem_cons]
    constructor
    · rintro ⟨x, hx | rfl | hx, hmem⟩
      · exact ⟨x, .inl hx, hmem⟩
      · exact absurd hmem List.not_mem_nil
      · exact ⟨x, .inr hx, hmem⟩
    · rintro ⟨x, hx, hmem⟩
      exact ⟨x, hx.imp_right .inr, hmem⟩
  · refine hreg₁.netids.sublist (List.Sublist.map _ ?_)
    exact (List.Sublist.refl left).append (List.sublist_cons_self _ _)
  · exact (forall_mem_between.mp hreg₁.types).2

end Between

/-- A node in the heap is that of an entry. -/
theorem Registered.entry {reg : NodeRegistry ν δ} {entries : List (NodeEntry ν δ)}
    (hreg : Registered reg entries) {p : ℕ}
    {node : LinkNode (Mnode ν δ)} (hp : reg.mnodes p = some node) : ∃ e ∈ entries, e.addr = p ∧
    e.link.2 = node.data := by
  obtain ⟨e, he, haddr⟩ := List.mem_map.mp ((hreg.alloc p).mp (by rw [hp]; rfl))
  obtain ⟨left, right, rfl⟩ := List.append_of_mem he
  obtain ⟨next, prev, hnode, -⟩ := hreg.node
  rw [haddr, hp] at hnode
  exact ⟨e, he, haddr, congrArg LinkNode.data (Option.some.inj hnode).symm⟩

/-- A sub-node in the heap to which a node points is the first of its entry. -/
theorem Registered.sub {reg : NodeRegistry ν δ} {entries : List (NodeEntry ν δ)}
    (hreg : Registered reg entries) {e : NodeEntry ν δ}
    (he : e ∈ entries) {q : ℕ} {node : LinkNode Snode} (hsnode : e.link.2.snode = some q)
    (hq : reg.snodes q = some node) :
    (q, node.data) ∈ e.subs := by
  obtain ⟨last, hseg⟩ := (hreg.sublinked e he).linked
  have hhead : (linkAddrs e.subs).head? = some q := hsnode
  cases hsubs : e.subs with
  | nil =>
    rw [hsubs] at hhead
    cases hhead
  | cons x xs =>
    obtain ⟨r, snode⟩ := x
    rw [hsubs] at hhead hseg
    obtain rfl : r = q := Option.some.inj hhead
    obtain ⟨-, next, hnode, -⟩ := hseg
    rw [hq] at hnode
    obtain rfl := Option.some.inj hnode
    exact List.mem_cons_self

/-- Entries with the same nodes and with linked sub-nodes are the same. -/
theorem eq_of_map_link_eq {snodes : LinkHeap Snode} {entries entries' : List (NodeEntry ν δ)}
    (hlink : entries.map NodeEntry.link = entries'.map NodeEntry.link)
    (hsubs : ∀ e ∈ entries, LinkedList snodes (linkAddrs e.subs).head? e.subs)
    (hsubs' : ∀ e ∈ entries', LinkedList snodes (linkAddrs e.subs).head? e.subs) :
    entries = entries' := by
  induction entries generalizing entries' with
  | nil =>
    cases entries' with
    | nil => rfl
    | cons e' entries' => cases hlink
  | cons e entries ih =>
    cases entries' with
    | nil => cases hlink
    | cons e' entries' =>
      rw [List.map_cons, List.map_cons, List.cons.injEq] at hlink
      obtain ⟨hhead, htail⟩ := hlink
      rw [ih htail (fun x hx => hsubs x (List.mem_cons_of_mem _ hx)) fun x hx =>
        hsubs' x (List.mem_cons_of_mem _ hx)]
      obtain ⟨last, hseg⟩ := (hsubs e List.mem_cons_self).linked
      obtain ⟨last', hseg'⟩ := (hsubs' e' List.mem_cons_self).linked
      obtain ⟨addr, netid, online, data, subs⟩ := e
      obtain ⟨addr', netid', online', data', subs'⟩ := e'
      simp only [NodeEntry.link, Prod.mk.injEq, Mnode.mk.injEq] at hhead
      obtain ⟨rfl, rfl, rfl, rfl, hsnode⟩ := hhead
      dsimp only at hseg hseg'
      rw [hsnode] at hseg
      rw [linkSeg_unique hseg hseg']

/-- A registry holds one list of entries only. -/
theorem Registered.unique {reg : NodeRegistry ν δ} {entries entries' : List (NodeEntry ν δ)}
    (hreg : Registered reg entries)
    (hreg' : Registered reg entries') : entries = entries' := by
  obtain ⟨last, hseg⟩ := hreg.linked.linked
  obtain ⟨last', hseg'⟩ := hreg'.linked.linked
  exact eq_of_map_link_eq (linkSeg_unique hseg hseg') hreg.sublinked hreg'.sublinked

/-- A node without sub-nodes is appended. -/
theorem Registered.appendNode {reg : NodeRegistry ν δ} {entries : List (NodeEntry ν δ)}
    (hreg : Registered reg entries) {fuel : ℕ}
    (hfuel : entries.length ≤ fuel) {p : ℕ} (hfresh : reg.mnodes p = none) {netid : ν}
    (hnetid : netid ∉ entries.map NodeEntry.netid)
    (online : Bool) (data : δ) :
    ∃ mnodes start, appendLink fuel
      (Function.update reg.mnodes p (some ⟨⟨netid, online, data, none⟩, none, none⟩)) reg.start p =
        some (mnodes, start) ∧
      Registered { reg with mnodes := mnodes, start := start }
      (entries ++ [⟨p, netid, online, data, []⟩]) := by
  have hnot : p ∉ linkAddrs (entries.map NodeEntry.link) := by
    rw [linkAddrs_link, ← hreg.alloc, hfresh]
    exact Bool.false_ne_true
  have hadded := changedAt_update reg.mnodes (some ⟨⟨netid, online, data, none⟩, none, none⟩)
    (List.mem_singleton_self p)
  have hlinked := hreg.linked.congr hadded fun r hr hmem => hnot (List.mem_singleton.mp hmem ▸ hr)
  have hlength : (entries.map NodeEntry.link).length ≤ fuel := by
    rw [List.length_map]
    exact hfuel
  obtain ⟨mnodes, start, happend, hlinked', hsome, -⟩ :=
    hlinked.append hlength hnot (Function.update_self ..)
  refine ⟨mnodes, start, happend, ?_, fun r => ?_, ?_, ?_, fun q => ?_, ?_, ?_⟩
  · rw [List.map_append]
    exact hlinked'
  · rw [hsome, List.map_append, List.mem_append]
    by_cases hr : r = p
    · simp [hr]
    · rw [Function.update_of_ne hr, hreg.alloc]
      simp [hr]
  · rw [List.forall_mem_append, List.forall_mem_singleton]
    exact ⟨hreg.sublinked, List.nodup_nil, none, rfl, rfl⟩
  · rw [List.flatMap_append]
    simpa using hreg.separate
  · rw [hreg.suballoc]
    simp
  · rw [List.map_append, List.nodup_append]
    refine ⟨hreg.netids, List.nodup_singleton _, ?_⟩
    rintro i hi j hj rfl
    obtain rfl := List.mem_singleton.mp hj
    exact hnetid hi
  · rw [List.forall_mem_append, List.forall_mem_singleton]
    exact ⟨hreg.types, List.nodup_nil⟩

/-- The nodes and sub-nodes that the loop of `mnode_rm_all` has still to free. -/
structure Draining (reg : NodeRegistry ν δ) (prev : Option ℕ) (rest : List (NodeEntry ν δ)) : Prop where
  linked : ∃ last, LinkSeg reg.mnodes prev (linkAddrs (rest.map NodeEntry.link)).head?
    (rest.map NodeEntry.link) last none
  distinct : (rest.map NodeEntry.addr).Nodup
  alloc : ∀ p, (reg.mnodes p).isSome = true ↔ p ∈ rest.map NodeEntry.addr
  sublinked : ∀ e ∈ rest, LinkedList reg.snodes (linkAddrs e.subs).head? e.subs
  separate : (rest.flatMap fun e => linkAddrs e.subs).Nodup
  suballoc : ∀ q, (reg.snodes q).isSome = true ↔ ∃ e ∈ rest, q ∈ linkAddrs e.subs

/-- One node is freed with its sub-nodes. -/
theorem Draining.next {reg : NodeRegistry ν δ} {prev : Option ℕ} {e : NodeEntry ν δ}
    {rest : List (NodeEntry ν δ)}
    (hdrain : Draining reg prev (e :: rest)) {fuel : ℕ} (hfuel : e.subs.length < fuel) :
    ∃ node reg', reg.mnodes e.addr = some node ∧
      node.next = (linkAddrs (rest.map NodeEntry.link)).head? ∧
      snodeRmAll fuel reg e.addr = some reg' ∧
      Draining { reg' with mnodes := Function.update reg'.mnodes e.addr none } (some e.addr) rest := by
  obtain ⟨last, -, next, hnode, hrest⟩ := hdrain.linked
  have hsub := hdrain.sublinked e List.mem_cons_self
  obtain ⟨sublast, hsubseg⟩ := hsub.linked
  obtain ⟨snodes, hfree, hsome, hat⟩ := freeLinks_eq hfuel hsub.nodup hsubseg
  have hseparate := hdrain.separate
  rw [List.flatMap_cons, List.nodup_append] at hseparate
  obtain ⟨-, hrestSeparate, hdisjoint⟩ := hseparate
  have hdistinct := hdrain.distinct
  rw [List.map_cons, List.nodup_cons] at hdistinct
  have hnot : e.addr ∉ linkAddrs (rest.map NodeEntry.link) := by
    rw [linkAddrs_link]
    exact hdistinct.1
  have hoff : ∀ x ∈ rest, ∀ q ∈ linkAddrs x.subs, q ∉ linkAddrs e.subs := fun x hx q hq hmem =>
    hdisjoint q hmem q (List.mem_flatMap.mpr ⟨x, hx, hq⟩) rfl
  have hnodeAt : reg.mnodes e.addr = some ⟨e.link.2, next, prev⟩ := hnode
  have hsnode : e.link.2.snode = (linkAddrs e.subs).head? := rfl
  obtain ⟨mnodes, hset⟩ : ∃ mnodes, setData reg.mnodes e.addr { e.link.2 with snode := none } =
    some mnodes ∧
      Function.update mnodes e.addr none = Function.update reg.mnodes e.addr none := by
    refine ⟨_, by rw [setData, hnodeAt]; rfl, ?_⟩
    rw [Function.update_idem]
  refine ⟨⟨e.link.2, next, prev⟩, { reg with mnodes := mnodes, snodes := snodes }, hnodeAt,
    linkSeg_start hrest, ?_, ?_⟩
  · simp only [snodeRmAll, hnodeAt, hsnode, hfree, hset.1, Option.bind_eq_bind, Option.bind_some]
  · refine ⟨⟨last, ?_⟩, hdistinct.2, fun p => ?_, fun x hx => ?_, hrestSeparate, fun q => ?_⟩
    · rw [← linkSeg_start hrest]
      simp only [hset.2]
      exact linkSeg_update _ none hnot hrest
    · simp only [hset.2]
      by_cases hp : p = e.addr
      · subst hp
        rw [Function.update_self]
        simpa using hdistinct.1
      · rw [Function.update_of_ne hp, hdrain.alloc, List.map_cons, List.mem_cons]
        simp [hp]
    · exact (hdrain.sublinked x (List.mem_cons_of_mem _ hx)).congr hat (hoff x hx)
    · rw [hsome, hdrain.suballoc]
      constructor
      · rintro ⟨hq, x, hx, hmem⟩
        rcases List.mem_cons.mp hx with rfl | hx
        · exact absurd hmem hq
        · exact ⟨x, hx, hmem⟩
      · rintro ⟨x, hx, hmem⟩
        exact ⟨hoff x hx q hmem, x, List.mem_cons_of_mem _ hx, hmem⟩

/-- The loop frees everything. -/
theorem Draining.all {reg : NodeRegistry ν δ} {prev : Option ℕ} {rest : List (NodeEntry ν δ)}
    (hdrain : Draining reg prev rest)
    {fuel rounds : ℕ} (hrounds : rest.length < rounds) (hsubs : ∀ e ∈ rest, e.subs.length < fuel) :
    ∃ reg', mnodeRmAllFrom fuel rounds reg (linkAddrs (rest.map NodeEntry.link)).head? = some reg' ∧
      (∀ p, reg'.mnodes p = none) ∧ ∀ q, reg'.snodes q = none := by
  induction rest generalizing reg prev rounds with
  | nil =>
    obtain ⟨rounds, rfl⟩ : ∃ k, rounds = k + 1 := ⟨rounds - 1, by omega⟩
    refine ⟨reg, rfl, fun p => ?_, fun q => ?_⟩
    · rw [← Option.not_isSome_iff_eq_none, hdrain.alloc]
      exact List.not_mem_nil
    · rw [← Option.not_isSome_iff_eq_none, hdrain.suballoc]
      rintro ⟨x, hx, -⟩
      cases hx
  | cons e rest ih =>
    obtain ⟨rounds, rfl⟩ : ∃ k, rounds = k + 1 :=
      ⟨rounds - 1, by simp only [List.length_cons] at hrounds; omega⟩
    obtain ⟨node, reg₁, hnode, hnext, hrm, hdrain₁⟩ := hdrain.next (hsubs e List.mem_cons_self)
    obtain ⟨reg', hrun, hnone⟩ :=
      ih hdrain₁ (by simpa using hrounds) fun x hx => hsubs x (List.mem_cons_of_mem _ hx)
    refine ⟨reg', ?_, hnone⟩
    have hhead : (linkAddrs ((e :: rest).map NodeEntry.link)).head? = some e.addr := rfl
    rw [hhead]
    simp only [mnodeRmAllFrom, hnode, hrm, hnext, hrun, Option.bind_eq_bind, Option.bind_some]

/-- A registry without nodes. -/
theorem registered_nil {reg : NodeRegistry ν δ} (hstart : reg.start = none)
    (hmnodes : ∀ p, reg.mnodes p = none)
    (hsnodes : ∀ q, reg.snodes q = none) : Registered reg [] where
  linked := ⟨List.nodup_nil, none, rfl, hstart⟩
  alloc p := by simp [hmnodes]
  sublinked e he := absurd he List.not_mem_nil
  separate := List.nodup_nil
  suballoc q := by simp [hsnodes]
  netids := List.nodup_nil
  types e he := absurd he List.not_mem_nil

end DasEdge.Wireless
