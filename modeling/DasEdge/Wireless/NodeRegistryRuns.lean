import DasEdge.Library.GuardedRun
import DasEdge.Wireless.NodeRegistryInvariant

/-!
# Runs of the registry

Each call makes of the entries what a call on a plain list would make of them. From that, what a
whole run leaves: the links, the network ids and types once each, and the addresses that were
announced last.
-/

namespace DasEdge.Wireless

open DasEdge.Library

variable {ν δ : Type} [DecidableEq ν]

/-- With the addresses of an announcement. -/
def NodeEntry.announced (e : NodeEntry ν δ) (info : SnodeInfo) (q : ℕ) : NodeEntry ν δ :=
  (e.without info.type).withSub q ⟨info.type, info.cnt, info.lst⟩

/-- Online, with other fields. -/
def NodeEntry.touched (e : NodeEntry ν δ) (touch : Bool → δ → δ) : NodeEntry ν δ :=
  { e with online := true, data := touch e.online e.data }

/-- After a check of the times, if the node stays. -/
def NodeEntry.checked (e : NodeEntry ν δ) (check : Bool → δ → Option (Bool × δ)) :
    Option (NodeEntry ν δ) :=
  (check e.online e.data).map fun kept => { e with online := kept.1, data := kept.2 }

/-- The entry of a network id is changed. -/
def changeEntry (entries : List (NodeEntry ν δ)) (netid : ν) (f : NodeEntry ν δ → NodeEntry ν δ) :
    List (NodeEntry ν δ) :=
  entries.map fun e => if e.netid = netid then f e else e

/-- The entries after a call. -/
def entriesStep (entries : List (NodeEntry ν δ)) : NodeOp ν δ → List (NodeEntry ν δ)
  | .insert netid fresh again info p q =>
    if netid ∈ entries.map NodeEntry.netid then changeEntry entries netid fun e =>
      (e.touched again).announced info q
    else entries ++ [NodeEntry.announced ⟨p, netid, true, fresh, []⟩ info q]
  | .online netid touch => changeEntry entries netid fun e => e.touched touch
  | .rmWithId netid => entries.filter fun e => e.netid ≠ netid
  | .rmAll => []
  | .checkOnline check => entries.filterMap fun e => e.checked check

/-- The allocator hands out addresses that are not in use. -/
def NodeFresh (reg : NodeRegistry ν δ) : NodeOp ν δ → Prop
  | .insert _ _ _ _ p q => reg.mnodes p = none ∧ reg.snodes q = none
  | .online _ _ => True
  | .rmWithId _ => True
  | .rmAll => True
  | .checkOnline _ => True

instance decidableNodeFresh (reg : NodeRegistry ν δ) (op : NodeOp ν δ) : Decidable (NodeFresh reg op) :=
  match op with
  | .insert _ _ _ _ p q =>
    decidable_of_iff ((reg.mnodes p).isNone = true ∧ (reg.snodes q).isNone = true)
      (and_congr Option.isNone_iff_eq_none Option.isNone_iff_eq_none)
  | .online _ _ => isTrue trivial
  | .rmWithId _ => isTrue trivial
  | .rmAll => isTrue trivial
  | .checkOnline _ => isTrue trivial

/-- The loops have rounds for all nodes and all sub-nodes. -/
structure EntriesFit (fuel : ℕ) (entries : List (NodeEntry ν δ)) : Prop where
  nodes : entries.length < fuel
  subs : ∀ e ∈ entries, e.subs.length < fuel

/-- The search for a network id splits the entries. -/
theorem find_netid (entries : List (NodeEntry ν δ)) (netid : ν) :
    (netid ∉ entries.map NodeEntry.netid ∧
      (entries.map NodeEntry.link).find? (fun x => decide (x.2.netid = netid)) = none) ∨
      ∃ left e right, entries = left ++ e :: right ∧ e.netid = netid ∧
        (entries.map NodeEntry.link).find? (fun x => decide (x.2.netid = netid)) = some e.link := by
  rw [List.find?_map]
  cases hget : entries.find? ((fun x : ℕ × Mnode ν δ => decide (x.2.netid = netid)) ∘
    NodeEntry.link) with
  | none =>
    refine .inl ⟨fun hmem => ?_, rfl⟩
    obtain ⟨e, he, hnetid⟩ := List.mem_map.mp hmem
    exact List.find?_eq_none.mp hget e he (decide_eq_true hnetid)
  | some e =>
    obtain ⟨hnetid, left, right, hsplit, -⟩ := List.find?_eq_some_iff_append.mp hget
    exact .inr ⟨left, e, right, hsplit, of_decide_eq_true hnetid, rfl⟩

/-- Among distinct network ids the one of an entry is changed there only. -/
theorem changeEntry_between {left right : List (NodeEntry ν δ)} {e : NodeEntry ν δ}
    (f : NodeEntry ν δ → NodeEntry ν δ)
    (hnodup : ((left ++ e :: right).map NodeEntry.netid).Nodup) :
    changeEntry (left ++ e :: right) e.netid f = left ++ f e :: right := by
  rw [List.map_append, List.map_cons, List.nodup_append, List.nodup_cons] at hnodup
  obtain ⟨-, ⟨hright, -⟩, hleft⟩ := hnodup
  have hkeep (xs : List (NodeEntry ν δ)) (hxs : e.netid ∉ xs.map NodeEntry.netid) :
      changeEntry xs e.netid f = xs := by
    refine (List.map_congr_left fun x hx => if_neg fun heq => hxs ?_).trans (List.map_id _)
    exact heq ▸ List.mem_map_of_mem hx
  have hnot : e.netid ∉ left.map NodeEntry.netid := fun hmem => hleft _ hmem _ List.mem_cons_self rfl
  have hsplit : changeEntry (left ++ e :: right) e.netid f = changeEntry left e.netid f ++ f e ::
      changeEntry right e.netid f := by
    simp [changeEntry]
  rw [hsplit, hkeep left hnot, hkeep right hright]

/-- Where there is no entry of a network id none is changed. -/
theorem changeEntry_absent {entries : List (NodeEntry ν δ)} {netid : ν}
    (f : NodeEntry ν δ → NodeEntry ν δ)
    (h : netid ∉ entries.map NodeEntry.netid) : changeEntry entries netid f = entries := by
  refine (List.map_congr_left fun x hx => if_neg fun heq => h ?_).trans (List.map_id _)
  exact heq ▸ List.mem_map_of_mem hx

/-- The node of a network id is found, if there is one. -/
theorem Registered.findWithNetid {reg : NodeRegistry ν δ} {entries : List (NodeEntry ν δ)}
    (hreg : Registered reg entries) {fuel : ℕ}
    (hfit : EntriesFit fuel entries) (netid : ν) :
    (netid ∉ entries.map NodeEntry.netid ∧ mnodeFindWithNetid fuel reg netid = some none) ∨
      ∃ left e right, entries = left ++ e :: right ∧ e.netid = netid ∧
        mnodeFindWithNetid fuel reg netid = some (some e.addr) := by
  have hfind := hreg.linked.find (by rw [List.length_map]; exact hfit.nodes) fun mnode =>
    decide (mnode.netid = netid)
  rcases find_netid entries netid with ⟨hnot, hnone⟩ | ⟨left, e, right, hsplit, hnetid, hsome⟩
  · rw [hnone] at hfind
    exact .inl ⟨hnot, hfind⟩
  · rw [hsome] at hfind
    exact .inr ⟨left, e, right, hsplit, hnetid, hfind⟩

/-- An announcement. -/
theorem Registered.insert {reg : NodeRegistry ν δ} {entries : List (NodeEntry ν δ)}
    (hreg : Registered reg entries) {fuel : ℕ}
    (hfit : EntriesFit fuel entries) {p q : ℕ} (hp : reg.mnodes p = none) (hq : reg.snodes q = none)
    (netid : ν) (fresh : δ)
    (again : Bool → δ → δ) (info : SnodeInfo) :
    ∃ out reg', mnodeInsert fuel reg netid fresh again info p q = some (out, reg') ∧
      Registered reg' (entriesStep entries (.insert netid fresh again info p q)) := by
  rcases hreg.findWithNetid hfit netid with ⟨hnot, hfind⟩ | ⟨left, e, right, rfl, rfl, hfind⟩
  · obtain ⟨mnodes, start, happend, hreg₁⟩ :=
      hreg.appendNode (Nat.le_of_lt hfit.nodes) hp hnot true fresh
    have hrounds : 0 < fuel := Nat.zero_lt_of_lt hfit.nodes
    obtain ⟨reg₂, hinsert, hreg₂⟩ := hreg₁.snodeInsert hrounds hq info
    refine ⟨some p, reg₂, ?_, ?_⟩
    · simp only [mnodeInsert, hfind, happend, hinsert, Option.bind_eq_bind, Option.bind_some]
    · rw [entriesStep, if_neg hnot]
      exact hreg₂
  · obtain ⟨next, prev, hnode, -⟩ := hreg.node
    obtain ⟨mnodes, hset, hreg₁⟩ := hreg.setFields true (again e.online e.data)
    have hrounds : e.subs.length < fuel := hfit.subs e (by simp)
    obtain ⟨reg₂, hinsert, hreg₂⟩ := hreg₁.snodeInsert hrounds hq info
    refine ⟨some e.addr, reg₂, ?_, ?_⟩
    · simp only [mnodeInsert, hfind, hnode, Option.bind_eq_bind, Option.bind_some]
      rw [show e.link.2.online = e.online from rfl, show e.link.2.data = e.data from rfl, hset]
      simp only [Option.bind_some]
      rw [show e.addr = ({ e with online := true, data := again e.online e.data } : NodeEntry ν
        δ).addr from rfl, hinsert]
      rfl
    · rw [entriesStep, if_pos (List.mem_map_of_mem (by simp)), changeEntry_between _ hreg.netids]
      exact hreg₂

/-- A message of a node. -/
theorem Registered.online {reg : NodeRegistry ν δ} {entries : List (NodeEntry ν δ)}
    (hreg : Registered reg entries) {fuel : ℕ}
    (hfit : EntriesFit fuel entries) (netid : ν) (touch : Bool → δ → δ) :
    ∃ out reg', mnodeOnline fuel reg netid touch = some (out, reg') ∧
      Registered reg' (entriesStep entries (.online netid touch)) := by
  rcases hreg.findWithNetid hfit netid with ⟨hnot, hfind⟩ | ⟨left, e, right, rfl, rfl, hfind⟩
  · refine ⟨none, reg, ?_, ?_⟩
    · simp only [mnodeOnline, hfind, Option.bind_eq_bind, Option.bind_some]
    · rw [entriesStep, changeEntry_absent _ hnot]
      exact hreg
  · obtain ⟨next, prev, hnode, -⟩ := hreg.node
    obtain ⟨mnodes, hset, hreg₁⟩ := hreg.setFields true (touch e.online e.data)
    refine ⟨some e.addr, { reg with mnodes := mnodes }, ?_, ?_⟩
    · simp only [mnodeOnline, hfind, hnode, Option.bind_eq_bind, Option.bind_some]
      rw [show e.link.2.online = e.online from rfl, show e.link.2.data = e.data from rfl, hset]
      rfl
    · rw [entriesStep, changeEntry_between _ hreg.netids]
      exact hreg₁

/-- A removal by network id. -/
theorem Registered.rmWithId {reg : NodeRegistry ν δ} {entries : List (NodeEntry ν δ)}
    (hreg : Registered reg entries) {fuel : ℕ}
    (hfit : EntriesFit fuel entries) (netid : ν) :
    ∃ reg', mnodeRmWithId fuel reg netid = some reg' ∧
      Registered reg' (entriesStep entries (.rmWithId netid)) := by
  rcases hreg.findWithNetid hfit netid with ⟨hnot, hfind⟩ | ⟨left, e, right, rfl, rfl, hfind⟩
  · refine ⟨reg, by simp only [mnodeRmWithId, hfind, Option.bind_eq_bind, Option.bind_some], ?_⟩
    have hall : entries.filter (fun e => e.netid ≠ netid) = entries := by
      rw [List.filter_eq_self]
      exact fun e he => decide_eq_true fun heq => hnot (heq ▸ List.mem_map_of_mem he)
    rw [entriesStep, hall]
    exact hreg
  · obtain ⟨reg', hrm, hreg'⟩ := hreg.mnodeRm (hfit.subs e (by simp))
    refine ⟨reg', by simp only [mnodeRmWithId, hfind, hrm, Option.bind_eq_bind, Option.bind_some], ?_⟩
    have hnodup := hreg.netids
    rw [List.map_append, List.map_cons, List.nodup_append, List.nodup_cons] at hnodup
    obtain ⟨-, ⟨hright, -⟩, hleft⟩ := hnodup
    have hkeep (xs : List (NodeEntry ν δ)) (hxs : e.netid ∉ xs.map NodeEntry.netid) :
        xs.filter (fun x => x.netid ≠ e.netid) = xs := by
      rw [List.filter_eq_self]
      exact fun x hx => decide_eq_true fun heq => hxs (heq ▸ List.mem_map_of_mem hx)
    have hnot : e.netid ∉ left.map NodeEntry.netid := fun hmem => hleft _ hmem _ List.mem_cons_self rfl
    rw [entriesStep, List.filter_append, List.filter_cons, hkeep left hnot, hkeep right hright]
    simpa using hreg'

/-- The loop of a check of the times, with the nodes that it has done. -/
theorem Registered.checkFrom {reg : NodeRegistry ν δ} (done : List (NodeEntry ν δ))
    {rest : List (NodeEntry ν δ)}
    (hreg : Registered reg (done ++ rest)) {fuel rounds : ℕ} (hrounds : rest.length < rounds)
    (hsubs : ∀ e ∈ rest, e.subs.length < fuel)
    (check : Bool → δ → Option (Bool × δ)) :
    ∃ reg', checkOnlineFrom fuel check rounds reg (linkAddrs (rest.map NodeEntry.link)).head? =
      some reg' ∧
      Registered reg' (done ++ rest.filterMap fun e => e.checked check) := by
  induction rest generalizing reg done rounds with
  | nil =>
    obtain ⟨rounds, rfl⟩ : ∃ k, rounds = k + 1 := ⟨rounds - 1, by omega⟩
    exact ⟨reg, rfl, hreg⟩
  | cons e rest ih =>
    obtain ⟨rounds, rfl⟩ : ∃ k, rounds = k + 1 :=
      ⟨rounds - 1, by simp only [List.length_cons] at hrounds; omega⟩
    obtain ⟨next, prev, hnode, hnext⟩ := hreg.node
    have hrounds' : rest.length < rounds := by simpa using hrounds
    have hsubs' : ∀ x ∈ rest, x.subs.length < fuel := fun x hx => hsubs x (List.mem_cons_of_mem _ hx)
    have hhead : (linkAddrs ((e :: rest).map NodeEntry.link)).head? = some e.addr := rfl
    rw [hhead]
    simp only [checkOnlineFrom, hnode, Option.bind_eq_bind, Option.bind_some]
    have hchecked : check e.link.2.online e.link.2.data = check e.online e.data := rfl
    rw [hchecked]
    cases hcheck : check e.online e.data with
    | some kept =>
      obtain ⟨online, data⟩ := kept
      obtain ⟨mnodes, hset, hreg₁⟩ := hreg.setFields online data
      rw [← List.singleton_append, ← List.append_assoc] at hreg₁
      obtain ⟨reg', hrun, hreg'⟩ := ih _ hreg₁ hrounds' hsubs'
      refine ⟨reg', ?_, ?_⟩
      · simp only [hset, Option.bind_some, hnext, hrun]
      · have hkept : e.checked check = some { e with online := online, data := data } := by
          rw [NodeEntry.checked, hcheck]
          rfl
        rw [List.filterMap_cons_some (f := fun e : NodeEntry ν δ => e.checked check) hkept,
          ← List.singleton_append, ← List.append_assoc]
        exact hreg'
    | none =>
      obtain ⟨reg₁, hrm, hreg₁⟩ := hreg.mnodeRm (hsubs e List.mem_cons_self)
      obtain ⟨reg', hrun, hreg'⟩ := ih _ hreg₁ hrounds' hsubs'
      refine ⟨reg', ?_, ?_⟩
      · simp only [hrm, Option.bind_some, hnext, hrun]
      · have hgone : e.checked check = none := by
          rw [NodeEntry.checked, hcheck]
          rfl
        rw [List.filterMap_cons_none (f := fun e : NodeEntry ν δ => e.checked check) hgone]
        exact hreg'

/-- A check of the times. -/
theorem Registered.checkOnline {reg : NodeRegistry ν δ} {entries : List (NodeEntry ν δ)}
    (hreg : Registered reg entries) {fuel : ℕ}
    (hfit : EntriesFit fuel entries) (check : Bool → δ → Option (Bool × δ)) :
    ∃ reg', Wireless.checkOnline fuel reg check = some reg' ∧
      Registered reg' (entriesStep entries (.checkOnline check)) := by
  obtain ⟨reg', hrun, hreg'⟩ := Registered.checkFrom [] hreg hfit.nodes hfit.subs check
  refine ⟨reg', ?_, hreg'⟩
  rw [Wireless.checkOnline, hreg.linked.start_eq]
  exact hrun

/-- A removal of all nodes. -/
theorem Registered.rmAll {reg : NodeRegistry ν δ} {entries : List (NodeEntry ν δ)}
    (hreg : Registered reg entries) {fuel : ℕ}
    (hfit : EntriesFit fuel entries) :
    ∃ reg', mnodeRmAll fuel reg = some reg' ∧ Registered reg' (entriesStep entries .rmAll) := by
  obtain ⟨last, hseg⟩ := hreg.linked.linked
  have hstart := hreg.linked.start_eq
  have hdrain : Draining reg none entries := by
    refine ⟨⟨last, hstart ▸ hseg⟩, ?_, hreg.alloc, hreg.sublinked, hreg.separate, hreg.suballoc⟩
    have hnodup := hreg.linked.nodup
    rwa [← linkAddrs, linkAddrs_link] at hnodup
  obtain ⟨reg', hrun, hmnodes, hsnodes⟩ := hdrain.all hfit.nodes hfit.subs
  refine ⟨{ reg' with start := none }, ?_, registered_nil rfl hmnodes hsnodes⟩
  rw [mnodeRmAll, hstart, hrun]
  rfl

/-- One call makes of the entries what a call on a list makes of them. -/
theorem Registered.step {reg : NodeRegistry ν δ} {entries : List (NodeEntry ν δ)}
    (hreg : Registered reg entries) {fuel : ℕ}
    (hfit : EntriesFit fuel entries) (op : NodeOp ν δ) (hfresh : NodeFresh reg op) :
    ∃ out reg', nodeStep fuel reg op = some (out, reg') ∧ Registered reg' (entriesStep entries op) := by
  cases op with
  | insert netid fresh again info p q => exact hreg.insert hfit hfresh.1 hfresh.2 netid fresh again info
  | online netid touch => exact hreg.online hfit netid touch
  | rmWithId netid =>
    obtain ⟨reg', hrun, hreg'⟩ := hreg.rmWithId hfit netid
    exact ⟨none, reg', by rw [nodeStep, hrun]; rfl, hreg'⟩
  | rmAll =>
    obtain ⟨reg', hrun, hreg'⟩ := hreg.rmAll hfit
    exact ⟨none, reg', by rw [nodeStep, hrun]; rfl, hreg'⟩
  | checkOnline check =>
    obtain ⟨reg', hrun, hreg'⟩ := hreg.checkOnline hfit check
    exact ⟨none, reg', by rw [nodeStep, hrun]; rfl, hreg'⟩

/-- With rounds more. -/
theorem EntriesFit.mono {fuel fuel' : ℕ} {entries : List (NodeEntry ν δ)}
    (hfit : EntriesFit fuel entries) (hle : fuel ≤ fuel') :
    EntriesFit fuel' entries :=
  ⟨Nat.lt_of_lt_of_le hfit.nodes hle, fun e he => Nat.lt_of_lt_of_le (hfit.subs e he) hle⟩

/-- A call makes at most one node and one sub-node more. -/
theorem EntriesFit.step {n : ℕ} {entries : List (NodeEntry ν δ)} (hfit : EntriesFit n entries)
    (op : NodeOp ν δ) :
    EntriesFit (n + 1) (entriesStep entries op) := by
  have hpos := Nat.zero_lt_of_lt hfit.nodes
  have hmore := hfit.mono (Nat.le_succ n)
  have hwithout (e : NodeEntry ν δ) (type : UInt8) : (e.without type).subs.length ≤ e.subs.length :=
    List.length_filter_le _ _
  have hannounced (e : NodeEntry ν δ) (info : SnodeInfo) (q : ℕ) :
      (e.announced info q).subs.length ≤ e.subs.length + 1 := by
    have hle := hwithout e info.type
    simp only [NodeEntry.announced, NodeEntry.withSub, List.length_append, List.length_singleton]
    omega
  have hchange (netid : ν) (f : NodeEntry ν δ → NodeEntry ν δ)
    (hf : ∀ e, (f e).subs.length ≤ e.subs.length + 1) :
      EntriesFit (n + 1) (changeEntry entries netid f) := by
    refine ⟨by rw [changeEntry, List.length_map]; exact hmore.nodes, fun e he => ?_⟩
    obtain ⟨x, hx, rfl⟩ := List.mem_map.mp he
    have hlt := hfit.subs x hx
    split
    · have hle := hf x
      omega
    · omega
  cases op with
  | insert netid fresh again info p q =>
    simp only [entriesStep]
    split
    · exact hchange netid _ fun e => hannounced (e.touched again) info q
    · refine ⟨?_, ?_⟩
      · have hlt := hfit.nodes
        simp only [List.length_append, List.length_singleton]
        omega
      · rw [List.forall_mem_append, List.forall_mem_singleton]
        refine ⟨hmore.subs, Nat.lt_of_le_of_lt (hannounced _ info q) ?_⟩
        exact Nat.succ_lt_succ hpos
  | online netid touch => exact hchange netid _ fun e => Nat.le_succ _
  | rmWithId netid =>
    refine ⟨Nat.lt_of_le_of_lt (List.length_filter_le _ _) hmore.nodes, fun e he => ?_⟩
    exact hmore.subs e (List.mem_filter.mp he).1
  | rmAll => exact ⟨Nat.succ_pos n, fun e he => absurd he List.not_mem_nil⟩
  | checkOnline check =>
    refine ⟨Nat.lt_of_le_of_lt (List.length_filterMap_le _ _) hmore.nodes, fun e he => ?_⟩
    obtain ⟨x, hx, hkept⟩ := List.mem_filterMap.mp he
    obtain ⟨kept, -, rfl⟩ := Option.map_eq_some_iff.mp hkept
    exact hmore.subs x hx

/-- The announcement that a call is, if it is one of a type by a node. -/
def NodeOp.announces (netid : ν) (type : UInt8) : NodeOp ν δ → Option SnodeInfo
  | .insert id _ _ info _ _ => if id = netid ∧ info.type = type then some info else none
  | .online _ _ => none
  | .rmWithId _ => none
  | .rmAll => none
  | .checkOnline _ => none

/-- The last announcement of a type by a node. -/
def lastAnnounced (ops : List (NodeOp ν δ)) (netid : ν) (type : UInt8) : Option SnodeInfo :=
  (ops.filterMap (NodeOp.announces netid type)).getLast?

/-- Each sub-node is what `_snode_insert` makes of the last announcement of its type. -/
def HoldsLast (ops : List (NodeOp ν δ)) (entries : List (NodeEntry ν δ)) : Prop :=
  ∀ e ∈ entries, ∀ x ∈ e.subs, ∃ info, lastAnnounced ops e.netid x.2.type = some info ∧
    x.2 = ⟨info.type, info.cnt, info.lst⟩

/-- The node that a call is about; a removal of all nodes and a check of the times are about each. -/
def NodeOp.netid : NodeOp ν δ → Option ν
  | .insert netid _ _ _ _ _ => some netid
  | .online netid _ => some netid
  | .rmWithId netid => some netid
  | .rmAll => none
  | .checkOnline _ => none

/-- A call leaves the other nodes as they are, and an announced type has a sub-node then. -/
structure NodeStepOk (entries entries' : List (NodeEntry ν δ)) (op : NodeOp ν δ) : Prop where
  others : ∀ netid ∈ op.netid, ∀ e, e.netid ≠ netid → (e ∈ entries' ↔ e ∈ entries)
  announced : ∀ netid type info, op.announces netid type = some info →
    ∃ e ∈ entries', e.netid = netid ∧ ∃ x ∈ e.subs, x.2 = ⟨info.type, info.cnt, info.lst⟩

/-- A call that announces nothing of a type leaves the last announcement. -/
theorem lastAnnounced_concat (ops : List (NodeOp ν δ)) (op : NodeOp ν δ) (netid : ν) (type : UInt8) :
    lastAnnounced (ops ++ [op]) netid type =
      (op.announces netid type).or (lastAnnounced ops netid type) := by
  unfold lastAnnounced
  rw [List.filterMap_append, List.getLast?_append]
  cases h : op.announces netid type with
  | none => simp [h]
  | some info => simp [h]

/-- A node that is not announced anew keeps what it holds. -/
theorem HoldsLast.keeps {ops : List (NodeOp ν δ)} {entries entries' : List (NodeEntry ν δ)}
    (hholds : HoldsLast ops entries)
    (op : NodeOp ν δ) (hsame : ∀ e' ∈ entries', ∃ e ∈ entries, e'.netid = e.netid ∧ e'.subs = e.subs)
    (hnone : ∀ netid type, op.announces netid type = none) : HoldsLast (ops ++ [op]) entries' := by
  intro e' he' x hx
  obtain ⟨e, he, hnetid, hsubs⟩ := hsame e' he'
  rw [hsubs] at hx
  obtain ⟨info, hlast, hdata⟩ := hholds e he x hx
  exact ⟨info, by rw [lastAnnounced_concat, hnone, hnetid]; exact hlast, hdata⟩

/-- An announced node holds what is announced, and the rest as before. -/
theorem HoldsLast.announced {ops : List (NodeOp ν δ)} {netid : ν} {fresh : δ} {again : Bool → δ → δ}
    {info : SnodeInfo} {p q : ℕ}
    {e : NodeEntry ν δ} (hnetid : e.netid = netid)
    (hold : ∀ x ∈ e.subs, ∃ info, lastAnnounced ops netid x.2.type = some info ∧
      x.2 = ⟨info.type, info.cnt, info.lst⟩) :
    ∀ x ∈ (e.announced info q).subs, ∃ info',
      lastAnnounced (ops ++ [.insert netid fresh again info p q]) e.netid x.2.type =
      some info' ∧ x.2 = ⟨info'.type, info'.cnt, info'.lst⟩ := by
  intro x hx
  rcases List.mem_append.mp hx with hx | hx
  · obtain ⟨hmem, htype⟩ := List.mem_filter.mp hx
    obtain ⟨info', hlast, hdata⟩ := hold x hmem
    refine ⟨info', ?_, hdata⟩
    have hother : ¬ (netid = netid ∧ info.type = x.2.type) := fun h => of_decide_eq_true htype h.2.symm
    rw [lastAnnounced_concat, hnetid, NodeOp.announces, if_neg hother]
    exact hlast
  · obtain rfl := List.mem_singleton.mp hx
    refine ⟨info, ?_, rfl⟩
    rw [lastAnnounced_concat, hnetid, NodeOp.announces, if_pos ⟨rfl, rfl⟩]
    rfl

/-- A call keeps that the sub-nodes hold what was announced last. -/
theorem HoldsLast.step {ops : List (NodeOp ν δ)} {entries : List (NodeEntry ν δ)}
    (hholds : HoldsLast ops entries) (op : NodeOp ν δ) :
    HoldsLast (ops ++ [op]) (entriesStep entries op) := by
  cases op with
  | insert netid fresh again info p q =>
    simp only [entriesStep]
    have hother (e : NodeEntry ν δ) (he : e ∈ entries) (hne : e.netid ≠ netid) : ∀ x ∈ e.subs, ∃ info',
        lastAnnounced (ops ++ [.insert netid fresh again info p q]) e.netid x.2.type = some info' ∧
          x.2 = ⟨info'.type, info'.cnt, info'.lst⟩ := by
      intro x hx
      obtain ⟨info', hlast, hdata⟩ := hholds e he x hx
      refine ⟨info', ?_, hdata⟩
      rw [lastAnnounced_concat, NodeOp.announces, if_neg fun h => hne h.1.symm]
      exact hlast
    split
    · intro e' he'
      obtain ⟨e, he, rfl⟩ := List.mem_map.mp he'
      split
      · next heq => exact HoldsLast.announced heq fun x hx => heq ▸ hholds e he x hx
      · next hne => exact hother e he hne
    · next hnot =>
      intro e' he'
      rcases List.mem_append.mp he' with he | he
      · exact hother e' he fun heq => hnot (heq ▸ List.mem_map_of_mem he)
      · obtain rfl := List.mem_singleton.mp he
        exact HoldsLast.announced (e := ⟨p, netid, true, fresh, []⟩) rfl fun x hx =>
          absurd hx List.not_mem_nil
  | online netid touch =>
    refine hholds.keeps _ (fun e' he' => ?_) fun _ _ => rfl
    obtain ⟨e, he, rfl⟩ := List.mem_map.mp he'
    refine ⟨e, he, ?_⟩
    split <;> exact ⟨rfl, rfl⟩
  | rmWithId netid =>
    exact hholds.keeps _ (fun e he => ⟨e, (List.mem_filter.mp he).1, rfl, rfl⟩) fun _ _ => rfl
  | rmAll => exact hholds.keeps _ (fun e he => absurd he List.not_mem_nil) fun _ _ => rfl
  | checkOnline check =>
    refine hholds.keeps _ (fun e' he' => ?_) fun _ _ => rfl
    obtain ⟨e, he, hkept⟩ := List.mem_filterMap.mp he'
    obtain ⟨kept, -, rfl⟩ := Option.map_eq_some_iff.mp hkept
    exact ⟨e, he, rfl, rfl⟩

/-- The entries of other network ids stay when one is changed. -/
theorem mem_changeEntry_of_ne {entries : List (NodeEntry ν δ)} {netid : ν}
    (f : NodeEntry ν δ → NodeEntry ν δ)
    (hf : ∀ e, (f e).netid = e.netid) {e : NodeEntry ν δ} (hne : e.netid ≠ netid) :
    e ∈ changeEntry entries netid f ↔ e ∈ entries := by
  constructor
  · intro he
    obtain ⟨x, hx, heq⟩ := List.mem_map.mp he
    split at heq
    · next hnetid =>
      rw [← heq, hf] at hne
      exact absurd hnetid hne
    · exact heq ▸ hx
  · exact fun he => List.mem_map.mpr ⟨e, he, if_neg hne⟩

/-- A call does what it is about. -/
theorem nodeStepOk (entries : List (NodeEntry ν δ)) (op : NodeOp ν δ) :
    NodeStepOk entries (entriesStep entries op) op := by
  cases op with
  | insert netid fresh again info p q =>
    simp only [entriesStep]
    split
    · next hmem =>
      refine ⟨fun netid' hnetid' e hne => ?_, fun netid' type info' hop => ?_⟩
      · obtain rfl := Option.some.inj hnetid'
        exact mem_changeEntry_of_ne (fun e => (e.touched again).announced info q) (fun _ => rfl) hne
      · obtain ⟨e, he, heq⟩ := List.mem_map.mp hmem
        simp only [NodeOp.announces, Option.ite_none_right_eq_some, Option.some.injEq] at hop
        obtain ⟨⟨rfl, -⟩, rfl⟩ := hop
        refine ⟨(e.touched again).announced info q, List.mem_map.mpr ⟨e, he, if_pos heq⟩, heq, ?_⟩
        exact ⟨_, List.mem_append_right _ (List.mem_singleton_self _), rfl⟩
    · refine ⟨fun netid' hnetid' e hne => ?_, fun netid' type info' hop => ?_⟩
      · obtain rfl := Option.some.inj hnetid'
        rw [List.mem_append, List.mem_singleton]
        refine or_iff_left ?_
        rintro rfl
        exact hne rfl
      · simp only [NodeOp.announces, Option.ite_none_right_eq_some, Option.some.injEq] at hop
        obtain ⟨⟨rfl, -⟩, rfl⟩ := hop
        refine ⟨_, List.mem_append_right _ (List.mem_singleton_self _), rfl, ?_⟩
        exact ⟨_, List.mem_append_right _ (List.mem_singleton_self _), rfl⟩
  | online netid touch =>
    refine ⟨fun netid' hnetid' e hne => ?_, fun _ _ _ hop => by cases hop⟩
    obtain rfl := Option.some.inj hnetid'
    exact mem_changeEntry_of_ne (fun e => e.touched touch) (fun _ => rfl) hne
  | rmWithId netid =>
    refine ⟨fun netid' hnetid' e hne => ?_, fun _ _ _ hop => by cases hop⟩
    obtain rfl := Option.some.inj hnetid'
    rw [entriesStep, List.mem_filter]
    exact and_iff_left (decide_eq_true hne)
  | rmAll =>
    refine ⟨fun _ hnetid => ?_, fun _ _ _ hop => ?_⟩
    · cases hnetid
    · cases hop
  | checkOnline check =>
    refine ⟨fun _ hnetid => ?_, fun _ _ _ hop => ?_⟩
    · cases hnetid
    · cases hop

/-- The registry before the first call. -/
def emptyNodeRegistry : NodeRegistry ν δ := ⟨fun _ => none, none, fun _ => none⟩

/-- What a run leaves when the loops have rounds for all of its calls. -/
theorem nodeRun_holds {fuel : ℕ} {done ops : List (NodeOp ν δ)} {reg : NodeRegistry ν δ}
    {entries : List (NodeEntry ν δ)}
    (hreg : Registered reg entries) (hholds : HoldsLast done entries)
    (hfit : EntriesFit (done.length + 1) entries)
    (hfuel : done.length + ops.length < fuel) (hfresh : GuardedRun (nodeStep fuel) NodeFresh reg ops) :
    ∃ outs reg' entries', runBlocking (nodeStep fuel) reg ops = some (outs, reg') ∧
      Registered reg' entries' ∧
      HoldsLast (done ++ ops) entries' ∧ EntriesFit ((done ++ ops).length + 1) entries' := by
  induction ops generalizing done reg entries with
  | nil =>
    rw [List.append_nil]
    exact ⟨[], reg, entries, rfl, hreg, hholds, hfit⟩
  | cons op ops ih =>
    rw [List.length_cons] at hfuel
    obtain ⟨hhead, htail⟩ := hfresh
    obtain ⟨out, reg₁, hstep, hreg₁⟩ :=
      hreg.step (hfit.mono (Nat.le_trans (Nat.succ_le_succ (Nat.le_add_right _ _)) hfuel)) op hhead
    rw [hstep] at htail
    have hfit₁ : EntriesFit ((done ++ [op]).length + 1) (entriesStep entries op) := by
      rw [List.length_append]
      exact hfit.step op
    obtain ⟨outs, reg', entries', hrun, hreg', hholds', hfit'⟩ :=
      ih hreg₁ (hholds.step op) hfit₁ (by rw [List.length_append, List.length_singleton]; omega) htail
    rw [List.append_assoc, List.singleton_append] at hholds' hfit'
    refine ⟨out :: outs, reg', entries', ?_, hreg', hholds', hfit'⟩
    rw [runBlocking, hstep, Option.bind_some, hrun]
    rfl

end DasEdge.Wireless
