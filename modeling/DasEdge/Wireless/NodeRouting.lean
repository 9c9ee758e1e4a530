import DasEdge.Wireless.NodeRegistryRuns

/-!
# Which node is asked

For a protocol type and a slave address the first node in the list that advertises both is taken,
and then asked for only when it is online. So a node that is online is missed when one that is not
stands in front of it.
-/

namespace DasEdge.Wireless

open DasEdge.Library

variable {ν δ : Type} [DecidableEq ν]

/-- A node advertises a slave address for a protocol type. -/
def NodeEntry.Advertises (e : NodeEntry ν δ) (type : ℕ) (addr : ℤ) : Prop :=
  ∃ x ∈ e.subs, x.2.type.toNat = type ∧ ∃ a ∈ x.2.lst, (a.toNat : ℤ) = addr

instance NodeEntry.decidableAdvertises (e : NodeEntry ν δ) (type : ℕ) (addr : ℤ) :
    Decidable (e.Advertises type addr) := by
  unfold NodeEntry.Advertises; infer_instance

/-- An online node advertises the pair. -/
def Reachable (entries : List (NodeEntry ν δ)) (type : ℕ) (addr : ℤ) : Prop :=
  ∃ e ∈ entries, e.online = true ∧ e.Advertises type addr

/-- Routing to a pair: an online node that advertises it is selected when there is one, and nothing
else ever is. -/
structure Routes (entries : List (NodeEntry ν δ)) (type : ℕ) (addr : ℤ) (selected : Option ν)
    (ret : Bool) : Prop where
  selects : Reachable entries type addr → ret = true ∧ ∃ e ∈ entries, e.online = true ∧
    e.Advertises type addr ∧ selected = some e.netid
  only : ∀ netid ∈ selected, ∃ e ∈ entries, e.netid = netid ∧ e.online = true ∧ e.Advertises type addr

/-- When an online node advertises the pair, the first node in the list that does is online. -/
def FirstIsOnline (entries : List (NodeEntry ν δ)) (type : ℕ) (addr : ℤ) : Prop :=
  Reachable entries type addr → ∃ left e right, entries = left ++ e :: right ∧ e.online = true ∧
    e.Advertises type addr ∧
    ∀ x ∈ left, ¬ x.Advertises type addr

/-- Sub-nodes have as many addresses as they count. -/
def Counted (entries : List (NodeEntry ν δ)) : Prop :=
  ∀ e ∈ entries, ∀ x ∈ e.subs, x.2.cnt.toNat = x.2.lst.length

/-- As many addresses are stored as are announced. -/
theorem SnodeInfo.lst_length (info : SnodeInfo) : info.lst.length = info.cnt.toNat := by
  unfold SnodeInfo.lst SnodeInfo.addrs
  split
  · rw [List.length_map, List.length_range]
  · rw [List.length_replicate]

/-- What was announced is counted. -/
theorem HoldsLast.counted {ops : List (NodeOp ν δ)} {entries : List (NodeEntry ν δ)}
    (hholds : HoldsLast ops entries) :
    Counted entries := by
  intro e he x hx
  obtain ⟨info, -, hdata⟩ := hholds e he x hx
  rw [hdata]
  exact info.lst_length.symm

/-- A sub-node that counts its addresses has one if and only if it is among them. -/
theorem Snode.hasAddr_iff {snode : Snode} (hcounted : snode.cnt.toNat = snode.lst.length) (type : ℕ)
    (addr : ℤ) :
    snode.hasAddr type addr = true ↔ snode.type.toNat = type ∧
      ∃ a ∈ snode.lst, (a.toNat : ℤ) = addr := by
  simp only [Snode.hasAddr, Bool.and_eq_true, decide_eq_true_eq, List.any_eq_true]
  constructor
  · rintro ⟨⟨htype, -⟩, haddr⟩
    exact ⟨htype, haddr⟩
  · rintro ⟨htype, a, ha, haddr⟩
    refine ⟨⟨htype, ?_⟩, a, ha, haddr⟩
    have hpos := List.length_pos_of_mem ha
    rw [UInt8.lt_iff_toNat_lt, hcounted]
    exact hpos

/-- The sub-nodes of a node are searched for the pair. -/
theorem Registered.snodeFind {reg : NodeRegistry ν δ} {entries : List (NodeEntry ν δ)}
    (hreg : Registered reg entries)
    (hcounted : Counted entries) {fuel : ℕ} (hfit : EntriesFit fuel entries) {e : NodeEntry ν δ}
    (he : e ∈ entries) (type : ℕ)
    (addr : ℤ) :
    (snodeFindWithAddr fuel reg e.link.2 type addr).map Option.isSome =
      some (decide (e.Advertises type addr)) := by
  have hfind := (hreg.sublinked e he).find (hfit.subs e he) fun snode => snode.hasAddr type addr
  have hsnode : e.link.2.snode = (linkAddrs e.subs).head? := rfl
  rw [snodeFindWithAddr, hsnode, hfind, Option.map_some, Option.isSome_map, Option.some_inj,
    Bool.eq_iff_iff,
    List.find?_isSome, decide_eq_true_eq, NodeEntry.Advertises]
  exact exists_congr fun x => and_congr_right fun hx => Snode.hasAddr_iff (hcounted e he x hx) type addr

/-- The first node that advertises the pair is found. -/
theorem Registered.findWithAddr {reg : NodeRegistry ν δ} {entries : List (NodeEntry ν δ)}
    (hreg : Registered reg entries)
    (hcounted : Counted entries) {fuel : ℕ} (hfit : EntriesFit fuel entries) (type : ℕ) (addr : ℤ) :
    (∀ x ∈ entries, ¬ x.Advertises type addr) ∧ mnodeFindWithAddr fuel reg type addr = some none ∨
      ∃ left e right, entries = left ++ e :: right ∧ e.Advertises type addr ∧
        (∀ x ∈ left, ¬ x.Advertises type addr) ∧
        mnodeFindWithAddr fuel reg type addr = some (some e.addr) := by
  obtain ⟨last, hseg⟩ := hreg.linked.linked
  -- the test of a node that is linked gives a result
  let t (mnode : Mnode ν δ) : Bool :=
    ((snodeFindWithAddr fuel reg mnode type addr).map Option.isSome).getD false
  have htest (e : NodeEntry ν δ) (he : e ∈ entries) : t e.link.2 = decide (e.Advertises type addr) := by
    simp only [t, hreg.snodeFind hcounted hfit he, Option.getD_some]
  have hfind : mnodeFindWithAddr fuel reg type addr =
      some (((entries.map NodeEntry.link).find? fun x => t x.2).map Prod.fst) := by
    refine findLink_eq (by rw [List.length_map]; exact hfit.nodes) (fun x hx => ?_) hseg
    obtain ⟨e, he, rfl⟩ := List.mem_map.mp hx
    rw [htest e he]
    exact hreg.snodeFind hcounted hfit he type addr
  rw [List.find?_map] at hfind
  cases hget : entries.find? ((fun x : ℕ × Mnode ν δ => t x.2) ∘ NodeEntry.link) with
  | none =>
    rw [hget] at hfind
    refine .inl ⟨fun x hx hadv => ?_, hfind⟩
    refine List.find?_eq_none.mp hget x hx ?_
    rw [Function.comp_apply, htest x hx]
    exact decide_eq_true hadv
  | some e =>
    obtain ⟨he, left, right, hsplit, hleft⟩ := List.find?_eq_some_iff_append.mp hget
    rw [hget] at hfind
    have hmem (x : NodeEntry ν δ) (hx : x ∈ left) : x ∈ entries := by simp [hsplit, hx]
    refine .inr ⟨left, e, right, hsplit, ?_, fun x hx hadv => ?_, hfind⟩
    · rw [Function.comp_apply, htest e (by simp [hsplit])] at he
      exact of_decide_eq_true he
    · have hnot := hleft x hx
      rw [Function.comp_apply, htest x (hmem x hx), decide_eq_true hadv] at hnot
      cases hnot

/-- Routing is right for a pair if and only if the first node that advertises it is online when one
is. -/
theorem Registered.routes_iff {reg : NodeRegistry ν δ} {entries : List (NodeEntry ν δ)}
    (hreg : Registered reg entries)
    (hcounted : Counted entries) {fuel : ℕ} (hfit : EntriesFit fuel entries) (setDstAddr : ν → Bool)
    (hradio : ∀ netid, setDstAddr netid = true) (type : ℕ) (addr : ℤ) :
    ∃ selected ret, setDstNode fuel reg setDstAddr type addr = some (selected, ret) ∧
      (Routes entries type addr selected ret ↔ FirstIsOnline entries type addr) := by
  rcases hreg.findWithAddr hcounted hfit type addr
    with ⟨hnone, hfind⟩ | ⟨left, e, right, rfl, hadv, hleft, hfind⟩
  · refine ⟨none, false, by simp only [setDstNode, hfind, Option.bind_eq_bind, Option.bind_some], ?_⟩
    have hunreachable : ¬ Reachable entries type addr := fun ⟨x, hx, _, hadv⟩ => hnone x hx hadv
    exact iff_of_true ⟨fun h => absurd h hunreachable, fun _ h => by cases h⟩ fun h =>
      absurd h hunreachable
  · obtain ⟨next, prev, hnode, -⟩ := hreg.node
    have honline : e.link.2.online = e.online := rfl
    have hnetid : e.link.2.netid = e.netid := rfl
    by_cases hon : e.online = true
    · refine ⟨some e.netid, true, ?_, ?_⟩
      · simp only [setDstNode, hfind, hnode, honline, hnetid, hon, hradio, if_true,
          Option.bind_eq_bind, Option.bind_some]
      · refine iff_of_true ⟨fun _ => ⟨rfl, e, by simp, hon, hadv, rfl⟩, fun netid hsel => ?_⟩ fun _ =>
          ⟨left, e, right, rfl, hon, hadv, hleft⟩
        obtain rfl := Option.some.inj hsel
        exact ⟨e, by simp, rfl, hon, hadv⟩
    · refine ⟨none, false, ?_, ?_⟩
      · simp only [setDstNode, hfind, hnode, honline, if_neg hon, Option.bind_eq_bind, Option.bind_some]
      · constructor
        · intro hroutes hreach
          cases (hroutes.selects hreach).1
        · refine fun hfirst => ⟨fun hreach => ?_, fun _ h => by cases h⟩
          -- two nodes that are the first to advertise the pair are one
          obtain ⟨left', e', right', hsplit, hon', hadv', hleft'⟩ := hfirst hreach
          have hsame : e = e' := by
            rcases List.append_eq_append_iff.mp hsplit with ⟨mid, rfl, htail⟩ | ⟨mid, rfl, htail⟩
            · cases mid with
              | nil => exact (List.cons.inj htail).1
              | cons y ys =>
                obtain ⟨rfl, -⟩ := List.cons.inj htail
                exact absurd hadv (hleft' e (by simp))
            · cases mid with
              | nil => exact (List.cons.inj htail).1.symm
              | cons y ys =>
                obtain ⟨rfl, -⟩ := List.cons.inj htail
                exact absurd hadv' (hleft e' (by simp))
          exact absurd (hsame ▸ hon') hon

end DasEdge.Wireless
