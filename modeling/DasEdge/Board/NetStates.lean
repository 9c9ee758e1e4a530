import DasEdge.Library.GuardedRun
import DasEdge.Library.SlotTable
import Mathlib.Data.Finset.Erase
import Mathlib.Data.Finset.Insert
import Mathlib.Data.Int.Notation

/-!
# The socket states of a channel

The list in `g_tcpip_states` for one channel, in `net_helper.c`. Nodes are linked behind one another
and never freed, so a pointer to a node is its place. A closed node keeps its place with the socket
-1. The callers of `net_tcpip_state_get` and `net_tcpip_state_open` write the other fields of the
node they get.
-/

namespace DasEdge.Board

open DasEdge.Library

/-- `tcpip_state_e` -/
inductive TcpipStateE
  | wait
  | conned
  | accept
  | conning
  deriving DecidableEq

/-- The fields of `tcpip_state_t` that the callers write. -/
structure TcpipInfo where
  eState : TcpipStateE
  szRemIP : String
  usRemPort : UInt16
  szLocIP : String
  usLocPort : UInt16
  ulConnTime : UInt32
  deriving DecidableEq

/-- What `memset` leaves. -/
def TcpipInfo.zero : TcpipInfo where
  eState := .wait
  szRemIP := ""
  usRemPort := 0
  szLocIP := ""
  usLocPort := 0
  ulConnTime := 0

/-- `tcpip_state_t` -/
structure TcpipState where
  s : ℤ
  info : TcpipInfo
  deriving DecidableEq

/-- The socket of a node that is not free. -/
def TcpipState.socket (p : TcpipState) : Option ℤ := if p.s = -1 then none else some p.s

/-- `net_tcpip_state_get` -/
def netTcpipStateGet (states : List TcpipState) (s : ℤ) : Option ℕ :=
  if 0 ≤ s then states.findIdx? fun p => decide (p.s = s) else none

/-- `net_tcpip_state_open`, with whether there is memory for a node. -/
def netTcpipStateOpen (memory : Bool) (states : List TcpipState) (s : ℤ) : Option ℕ × List TcpipState :=
  if 0 ≤ s then
    match states.findIdx? fun p => decide (p.s = s ∨ p.s = -1) with
    | none => if memory then (some states.length, states ++ [{ s := s, info := .zero }])
      else (none, states)
    | some i => (some i, states.modify i fun p => if p.s = -1 then { p with s := s } else p)
  else (none, states)

/-- `net_tcpip_state_close` -/
def netTcpipStateClose (states : List TcpipState) (s : ℤ) : List TcpipState :=
  match netTcpipStateGet states s with
  | none => states
  | some i => states.set i { s := -1, info := .zero }

/-- A caller writes the fields of the node that it gets for a socket. -/
def netTcpipStateFill (states : List TcpipState) (s : ℤ) (info : TcpipInfo) : List TcpipState :=
  match netTcpipStateGet states s with
  | none => states
  | some i => states.set i { s := s, info := info }

/-- The calls on a channel. -/
inductive NetStateOp
  | opened (memory : Bool) (s : ℤ)
  | closed (s : ℤ)
  | got (s : ℤ)
  | filled (s : ℤ) (info : TcpipInfo)

/-- The socket of a call. -/
def NetStateOp.socket : NetStateOp → ℤ
  | .opened _ s => s
  | .closed s => s
  | .got s => s
  | .filled s _ => s

/-- The list, with the sockets that have been opened and not closed since. -/
structure NetStates where
  states : List TcpipState
  sockets : Finset ℤ

/-- After `net_init_all`. -/
def NetStates.init : NetStates where
  states := []
  sockets := ∅

/-- A call, with the pointer it returns. A socket counts as opened when the call returns a node. -/
def NetStates.step (w : NetStates) : NetStateOp → Option ℕ × NetStates
  | .opened memory s =>
    let r := netTcpipStateOpen memory w.states s
    (r.1, { states := r.2, sockets := if r.1.isSome then insert s w.sockets else w.sockets })
  | .closed s => (none, { states := netTcpipStateClose w.states s, sockets := w.sockets.erase s })
  | .got s => (netTcpipStateGet w.states s, w)
  | .filled s info =>
    (netTcpipStateGet w.states s, { w with states := netTcpipStateFill w.states s info })

/-- A call leaves the nodes of the other open sockets. -/
def NetStateOp.Leaves (op : NetStateOp) (states states' : List TcpipState) : Prop :=
  ∀ (i : ℕ) (p : TcpipState), states[i]? = some p → 0 ≤ p.s → p.s ≠ op.socket → states'[i]? = some p

/-- One node at most carries a socket, and the node found for a socket carries it and is there
exactly while the socket is open. -/
structure NetStates.Ok (w : NetStates) : Prop where
  carriedOnce : ∀ (i j : ℕ) (p q : TcpipState), w.states[i]? = some p → w.states[j]? = some q →
    p.s = q.s → 0 ≤ p.s → i = j
  carries : ∀ (s : ℤ) (i : ℕ), netTcpipStateGet w.states s = some i →
    ∃ p, w.states[i]? = some p ∧ p.s = s
  found : ∀ s : ℤ, (netTcpipStateGet w.states s).isSome = true ↔ s ∈ w.sockets

/-- No free node stands before the node of a socket. -/
def NoFreeBefore (states : List TcpipState) (s : ℤ) : Prop :=
  s ∈ states.map TcpipState.s → -1 ∉ (states.takeWhile fun p => decide (p.s ≠ s)).map TcpipState.s

instance decidableNoFreeBefore (states : List TcpipState) (s : ℤ) : Decidable (NoFreeBefore states s) :=
  inferInstanceAs (Decidable (_ → _))

/-- An open socket is opened again only with no free node before its own. -/
def NetStates.Meets (w : NetStates) : NetStateOp → Prop
  | .opened _ s => NoFreeBefore w.states s
  | _ => True

instance NetStates.decidableMeets (w : NetStates) (op : NetStateOp) : Decidable (w.Meets op) :=
  match op with
  | .opened _ s => decidableNoFreeBefore w.states s
  | .closed _ => isTrue trivial
  | .got _ => isTrue trivial
  | .filled _ _ => isTrue trivial

/-- The socket of a node, where it is one. -/
theorem TcpipState.socket_eq_some {p : TcpipState} {s : ℤ} (hs : 0 ≤ s) :
    p.socket = some s ↔ p.s = s := by
  rw [TcpipState.socket]
  split
  · rename_i hfree
    constructor
    · intro h
      cases h
    · intro h
      omega
  · exact Option.some_inj

/-- The node that is found carries the socket. -/
theorem netTcpipStateGet_eq_some {states : List TcpipState} {s : ℤ} {i : ℕ}
    (h : netTcpipStateGet states s = some i) :
    0 ≤ s ∧ ∃ p, states[i]? = some p ∧ p.s = s := by
  rw [netTcpipStateGet] at h
  split at h
  · rename_i hs
    obtain ⟨hi, hp, -⟩ := List.findIdx?_eq_some_iff_getElem.mp h
    exact ⟨hs, states[i], List.getElem?_eq_getElem hi, of_decide_eq_true hp⟩
  · cases h

/-- A node is found when one carries the socket. -/
theorem netTcpipStateGet_isSome {states : List TcpipState} {s : ℤ} (hs : 0 ≤ s) :
    (netTcpipStateGet states s).isSome = true ↔ ∃ i, SlotHas TcpipState.socket states i s := by
  rw [netTcpipStateGet, if_pos hs, List.findIdx?_isSome, List.any_eq_true, exists_slotHas_iff]
  simp only [decide_eq_true_eq, TcpipState.socket_eq_some hs]

/-- An element is in the initial part with a property, if it has it with all elements before it. -/
theorem getElem_mem_takeWhile {α : Type*} (test : α → Bool) (l : List α) (i : ℕ) (hi : i < l.length)
    (h : ∀ (j : ℕ) (hj : j < l.length), j ≤ i → test l[j] = true) : l[i] ∈ l.takeWhile test := by
  induction l generalizing i with
  | nil => cases hi
  | cons a l ih =>
    have hhead : test a = true := h 0 (Nat.succ_pos _) (Nat.zero_le _)
    rw [List.takeWhile_cons_of_pos hhead]
    cases i with
    | zero => exact List.mem_cons_self
    | succ i =>
      refine List.mem_cons_of_mem _ (ih i (Nat.lt_of_succ_lt_succ hi) fun j hj hji => ?_)
      exact h (j + 1) (Nat.succ_lt_succ hj) (Nat.succ_le_succ hji)

/-- What `net_tcpip_state_open` does for a socket: it finds its node, or a free node, or it appends
one, or it has no memory. -/
theorem netTcpipStateOpen_cases (memory : Bool) (states : List TcpipState) (s : ℤ) (hs : 0 ≤ s) :
    (∃ i p, states[i]? = some p ∧ p.s = s ∧ netTcpipStateOpen memory states s = (some i, states)) ∨
    (∃ i p, states[i]? = some p ∧ p.s = -1 ∧ (NoFreeBefore states s → s ∉ states.map TcpipState.s) ∧
      netTcpipStateOpen memory states s = (some i, states.set i { p with s := s })) ∨
    (s ∉ states.map TcpipState.s ∧
      netTcpipStateOpen memory states s = (some states.length, states ++ [{ s := s, info := .zero }])) ∨
    (s ∉ states.map TcpipState.s ∧ netTcpipStateOpen memory states s = (none, states)) := by
  rw [netTcpipStateOpen, if_pos hs]
  cases hfound : states.findIdx? fun p => decide (p.s = s ∨ p.s = -1) with
  | none =>
    have hnew : s ∉ states.map TcpipState.s := by
      intro hmem
      obtain ⟨p, hp, hps⟩ := List.mem_map.mp hmem
      have hnone := List.findIdx?_eq_none_iff.mp hfound p hp
      simp [hps] at hnone
    cases memory
    · exact Or.inr (Or.inr (Or.inr ⟨hnew, rfl⟩))
    · exact Or.inr (Or.inr (Or.inl ⟨hnew, rfl⟩))
  | some i =>
    obtain ⟨hi, hp, hbefore⟩ := List.findIdx?_eq_some_iff_getElem.mp hfound
    have hget : states[i]? = some states[i] := List.getElem?_eq_getElem hi
    rcases of_decide_eq_true hp with hown | hfree
    · refine Or.inl ⟨i, states[i], hget, hown, ?_⟩
      have hne : states[i].s ≠ -1 := by omega
      simp only [List.modify_eq_set_getElem?, hget, Option.map_eq_map, Option.map_some,
        Option.getD_some, if_neg hne,
        List.set_getElem_self]
    · refine Or.inr (Or.inl ⟨i, states[i], hget, hfree, ?_, ?_⟩)
      · intro hmeets hmem
        refine hmeets hmem (List.mem_map.mpr ⟨states[i], ?_, hfree⟩)
        refine getElem_mem_takeWhile _ states i hi fun j hj hji => ?_
        rw [decide_eq_true_eq]
        rcases Nat.lt_or_eq_of_le hji with hlt | rfl
        · have hother := hbefore j hlt
          rw [decide_eq_true_eq] at hother
          exact fun hps => hother (Or.inl hps)
        · omega
      · simp only [List.modify_eq_set_getElem?, hget, Option.map_eq_map, Option.map_some,
          Option.getD_some, if_pos hfree]

/-- No node carries a socket that is not in the list. -/
theorem not_slotHas {states : List TcpipState} {s : ℤ} (hs : 0 ≤ s) (h : s ∉ states.map TcpipState.s) :
    ∀ i, ¬ SlotHas TcpipState.socket states i s := by
  rintro i ⟨p, hp, hsocket⟩
  exact h (List.mem_map.mpr ⟨p, List.mem_of_getElem? hp, (TcpipState.socket_eq_some hs).mp hsocket⟩)

/-- The places of the sockets are distinct, and the open sockets are those that have a place. -/
structure NetStates.Inv (w : NetStates) : Prop where
  distinct : SlotsDistinct TcpipState.socket w.states
  placed : ∀ s : ℤ, s ∈ w.sockets ↔ 0 ≤ s ∧ ∃ i, SlotHas TcpipState.socket w.states i s

/-- No socket is open at first. -/
theorem NetStates.inv_init : NetStates.init.Inv where
  distinct := slotsDistinct_nil _
  placed := by
    intro s
    constructor
    · intro h
      cases h
    · rintro ⟨-, i, p, hp, -⟩
      cases hp

/-- The condition on the table that the invariant amounts to. -/
theorem NetStates.Inv.ok {w : NetStates} (h : w.Inv) : w.Ok where
  carriedOnce := by
    intro i j p q hp hq hpq hs
    exact h.distinct i j p.s ⟨p, hp, (TcpipState.socket_eq_some hs).mpr rfl⟩
      ⟨q, hq, (TcpipState.socket_eq_some hs).mpr hpq.symm⟩
  carries := fun s i hget => (netTcpipStateGet_eq_some hget).2
  found := by
    intro s
    rw [h.placed s]
    rcases Int.lt_or_le s 0 with hs | hs
    · have hget : netTcpipStateGet w.states s = none := by rw [netTcpipStateGet, if_neg (by omega)]
      simp [hget, hs]
    · rw [netTcpipStateGet_isSome hs]
      exact ⟨fun hplace => ⟨hs, hplace⟩, fun hopen => hopen.2⟩

/-- A socket gets the place of a node. -/
theorem NetStates.Inv.insert {w : NetStates} (h : w.Inv) {states : List TcpipState} {s : ℤ} {i : ℕ}
    (hs : 0 ≤ s)
    (hnew : ∀ j, ¬ SlotHas TcpipState.socket w.states j s)
    (hplaces : ∀ j t, SlotHas TcpipState.socket states j t ↔ (j = i ∧ t = s) ∨
      SlotHas TcpipState.socket w.states j t) :
    (NetStates.mk states (Insert.insert s w.sockets)).Inv where
  distinct := h.distinct.extend i hnew fun j t => (hplaces j t).mp
  placed := by
    intro t
    rw [Finset.mem_insert, h.placed t]
    constructor
    · rintro (rfl | ⟨ht, j, hj⟩)
      · exact ⟨hs, i, (hplaces i t).mpr (Or.inl ⟨rfl, rfl⟩)⟩
      · exact ⟨ht, j, (hplaces j t).mpr (Or.inr hj)⟩
    · rintro ⟨ht, j, hj⟩
      rcases (hplaces j t).mp hj with ⟨-, rfl⟩ | hj
      · exact Or.inl rfl
      · exact Or.inr ⟨ht, j, hj⟩

/-- Opening keeps the places, when no free node stands before the socket's own. -/
theorem NetStates.Inv.opened {w : NetStates} (h : w.Inv) (memory : Bool) (s : ℤ)
    (hmeets : NoFreeBefore w.states s) :
    (w.step (.opened memory s)).2.Inv := by
  rcases Int.lt_or_le s 0 with hneg | hs
  · have hopen : netTcpipStateOpen memory w.states s = (none, w.states) := by
      rw [netTcpipStateOpen, if_neg (by omega)]
    simp only [NetStates.step, hopen, Option.isSome_none]
    exact h
  rcases netTcpipStateOpen_cases memory w.states s hs
    with ⟨i, p, hp, hps, hopen⟩ | ⟨i, p, hp, hps, hnew, hopen⟩ |
    ⟨hnew, hopen⟩ | ⟨-, hopen⟩
  · have hmem : s ∈ w.sockets := (h.placed s).mpr ⟨hs, i, p, hp, (TcpipState.socket_eq_some hs).mpr hps⟩
    simp only [NetStates.step, hopen, Option.isSome_some, if_true, Finset.insert_eq_of_mem hmem]
    exact h
  · have hfree : p.socket = none := by rw [TcpipState.socket, if_pos hps]
    have hkey : TcpipState.socket { p with s := s } = some s := (TcpipState.socket_eq_some hs).mpr rfl
    simp only [NetStates.step, hopen, Option.isSome_some, if_true]
    exact h.insert hs (not_slotHas hs (hnew hmeets)) fun j t => slotHas_occupy hp hfree hkey
  · have hkey : TcpipState.socket { s := s, info := .zero } = some s :=
      (TcpipState.socket_eq_some hs).mpr rfl
    simp only [NetStates.step, hopen, Option.isSome_some, if_true]
    exact h.insert hs (not_slotHas hs hnew) fun j t => slotHas_concat hkey
  · simp only [NetStates.step, hopen, Option.isSome_none]
    exact h

/-- Closing takes the socket's place. -/
theorem NetStates.Inv.closed {w : NetStates} (h : w.Inv) (s : ℤ) : (w.step (.closed s)).2.Inv := by
  cases hget : netTcpipStateGet w.states s with
  | none =>
    have hclosed : s ∉ w.sockets := by
      intro hmem
      have hfound := (h.ok.found s).mpr hmem
      rw [hget] at hfound
      cases hfound
    simp only [NetStates.step, netTcpipStateClose, hget, Finset.erase_eq_of_notMem hclosed]
    exact h
  | some i =>
    obtain ⟨hs, p, hp, hps⟩ := netTcpipStateGet_eq_some hget
    have hhas : SlotHas TcpipState.socket w.states i s :=
      ⟨p, hp, (TcpipState.socket_eq_some hs).mpr hps⟩
    have hfree : TcpipState.socket { s := -1, info := .zero } = none := rfl
    have hplaces : ∀ j t, SlotHas TcpipState.socket (w.states.set i { s := -1, info := .zero }) j t ↔
        t ≠ s ∧ SlotHas TcpipState.socket w.states j t :=
        fun j t => slotHas_release h.distinct hhas hfree
    simp only [NetStates.step, netTcpipStateClose, hget]
    constructor
    · exact h.distinct.mono fun j t hj => ((hplaces j t).mp hj).2
    · intro t
      simp only [Finset.mem_erase, h.placed t, hplaces]
      constructor
      · rintro ⟨hne, ht, j, hj⟩
        exact ⟨ht, j, hne, hj⟩
      · rintro ⟨ht, j, hne, hj⟩
        exact ⟨hne, ht, j, hj⟩

/-- A caller's write keeps the places. -/
theorem NetStates.Inv.filled {w : NetStates} (h : w.Inv) (s : ℤ) (info : TcpipInfo) :
    (w.step (.filled s info)).2.Inv := by
  cases hget : netTcpipStateGet w.states s with
  | none =>
    simp only [NetStates.step, netTcpipStateFill, hget]
    exact h
  | some i =>
    obtain ⟨-, p, hp, hps⟩ := netTcpipStateGet_eq_some hget
    have hkey : TcpipState.socket { s := s, info := info } = p.socket := by
      rw [TcpipState.socket, TcpipState.socket, hps]
    have hplaces : ∀ j t, SlotHas TcpipState.socket (w.states.set i { s := s, info := info }) j t ↔
        SlotHas TcpipState.socket w.states j t := fun j t => slotHas_rewrite hp hkey
    simp only [NetStates.step, netTcpipStateFill, hget]
    constructor
    · exact h.distinct.mono fun j t => (hplaces j t).mp
    · intro t
      simp only [h.placed t, hplaces]

/-- Each call that meets the condition keeps the places. -/
theorem NetStates.Inv.step {w : NetStates} (h : w.Inv) (op : NetStateOp) (hmeets : w.Meets op) :
    (w.step op).2.Inv := by
  cases op with
  | opened memory s => exact h.opened memory s hmeets
  | closed s => exact h.closed s
  | got s => exact h
  | filled s info => exact h.filled s info

/-- A node that is written is found at its place. -/
theorem getElem?_set_of_ne {states : List TcpipState} {i j : ℕ} {p q slot : TcpipState}
    (hp : states[i]? = some p)
    (hq : states[j]? = some q) (hpq : p.s ≠ q.s) : (states.set j slot)[i]? = some p := by
  have hij : j ≠ i := by
    rintro rfl
    rw [hp, Option.some_inj] at hq
    exact hpq (congrArg TcpipState.s hq)
  rw [List.getElem?_set_ne hij, hp]

/-- Every call leaves the nodes of the other sockets, whatever the table. -/
theorem NetStates.step_leaves (w : NetStates) (op : NetStateOp) :
    op.Leaves w.states (w.step op).2.states := by
  intro i p hp hs hne
  cases op with
  | opened memory s =>
    rcases Int.lt_or_le s 0 with hneg | hnonneg
    · simp only [NetStates.step, netTcpipStateOpen, if_neg (Int.not_le.mpr hneg), hp]
    rcases netTcpipStateOpen_cases memory w.states s hnonneg
      with ⟨_, _, -, -, hopen⟩ | ⟨j, q, hq, hqs, -, hopen⟩ |
      ⟨-, hopen⟩ | ⟨-, hopen⟩
    · simp only [NetStates.step, hopen, hp]
    · simp only [NetStates.step, hopen]
      exact getElem?_set_of_ne hp hq (by omega)
    · simp only [NetStates.step, hopen]
      rw [List.getElem?_append_left (List.getElem?_eq_some_iff.mp hp).1, hp]
    · simp only [NetStates.step, hopen, hp]
  | closed s =>
    cases hget : netTcpipStateGet w.states s with
    | none => simp only [NetStates.step, netTcpipStateClose, hget, hp]
    | some j =>
      obtain ⟨-, q, hq, hqs⟩ := netTcpipStateGet_eq_some hget
      simp only [NetStates.step, netTcpipStateClose, hget]
      exact getElem?_set_of_ne hp hq (hqs ▸ hne)
  | got s => exact hp
  | filled s info =>
    cases hget : netTcpipStateGet w.states s with
    | none => simp only [NetStates.step, netTcpipStateFill, hget, hp]
    | some j =>
      obtain ⟨-, q, hq, hqs⟩ := netTcpipStateGet_eq_some hget
      simp only [NetStates.step, netTcpipStateFill, hget]
      exact getElem?_set_of_ne hp hq (hqs ▸ hne)

/-- In a run whose calls meet the condition the table is as it should be in each state, and the next
call leaves the nodes of the other sockets. -/
theorem net_tcpip_states_run (ops : List NetStateOp)
    (hmeets : GuardedRun (fun w op => some (NetStates.step w op)) NetStates.Meets .init ops) :
    (runTotal NetStates.step .init ops).2.Ok ∧
      ∀ op : NetStateOp, op.Leaves (runTotal NetStates.step .init ops).2.states
        ((runTotal NetStates.step .init ops).2.step op).2.states := by
  have hinv :=
    runTotal_keeps NetStates.step NetStates.Meets NetStates.Inv
    (fun _ op h => h.step op) NetStates.inv_init hmeets
  exact ⟨hinv.ok, (runTotal NetStates.step .init ops).2.step_leaves⟩

/-- A socket that is opened on a free node, filled, closed and opened again. -/
theorem net_tcpip_states_run_reopened :
    (runTotal NetStates.step .init [.opened true 3, .opened true 4, .closed 3, .opened true 5,
      .got 4]).2.Ok :=
  (net_tcpip_states_run [.opened true 3, .opened true 4, .closed 3, .opened true 5, .got 4]
    (by decide)).1

/-- A state change of an open socket behind a free node puts it in a second node. -/
theorem net_tcpip_states_twice :
    ¬ (runTotal NetStates.step .init [.opened true 3, .opened true 4, .closed 3,
      .opened true 4]).2.Ok := by
  intro h
  have hsame :=
    h.carriedOnce 0 1 { s := 4, info := .zero } { s := 4, info := .zero } rfl rfl rfl (by decide)
  cases hsame

end DasEdge.Board
