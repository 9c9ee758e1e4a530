import Mathlib.Algebra.Order.Group.Nat
import DasEdge.VarManage.ExtDataListInvariant
import DasEdge.VarManage.SortLinks

/-!
# When the list of variables gets sorted

The sort moves each node that is not above all nodes before it, and does not look again at the node
that then follows the current one. The two nodes behind a moved one keep a `prev` that is not the
node before them any more. The list ends up sorted if and only if the nodes that are skipped are not
below an earlier one, and no later node is put before one with such a `prev`.
-/

namespace DasEdge.VarManage

open DasEdge.Library

/-- The sort gives back the nodes of the list, in the order of their addresses. -/
def SortsList (fuel : ℕ) (list : ExtDataList) (nodes : List (ℕ × ExtData)) : Prop :=
  ∃ (list' : ExtDataList) (nodes' : List (ℕ × ExtData)), sortExtdataLink fuel list = some list' ∧
    LinkPath (nextOf list'.heap) list'.pList (nodes'.map Prod.fst) none ∧
    (∀ x ∈ nodes', dataOf list'.heap x.1 = some x.2) ∧ nodes'.Perm nodes ∧
    nodes'.Pairwise fun x y => x.2.xIo.usAddr ≤ y.2.xIo.usAddr

/-- Above the address of a moved node, and not above the second of the addresses from it upwards.
The gap holds the address with those up to the node behind it. -/
def InGap (gap : UInt16 × List UInt16) (addr : UInt16) : Prop :=
  gap.1 < addr ∧ gap.2.countP (fun a => gap.1 ≤ a ∧ a < addr) < 2

instance (gap : UInt16 × List UInt16) (addr : UInt16) : Decidable (InGap gap addr) :=
  inferInstanceAs (Decidable (_ ∧ _))

-- The addresses are a finite type: a list of them is gone through, and not all of them.
local instance (priority := 1100) decidableAddrs (p : UInt16 → Prop) [DecidablePred p]
  (addrs : List UInt16) :
    Decidable (∀ a ∈ addrs, p a) :=
  List.decidableBAll p addrs

/-- Among the addresses behind `seen`, an address that is not above all before it lies in no gap,
and the address behind it, if any, is not below one before it. -/
def SortsFrom (seen : List UInt16) (gaps : List (UInt16 × List UInt16)) : List UInt16 → Prop
  | [] => True
  | [addr] => (∀ a ∈ seen, a < addr) ∨ ∀ gap ∈ gaps, ¬ InGap gap addr
  | addr :: behind :: rest =>
    if ∀ a ∈ seen, a < addr then SortsFrom (seen ++ [addr]) gaps (behind :: rest)
    else (∀ gap ∈ gaps, ¬ InGap gap addr) ∧ (∀ a ∈ seen, a ≤ behind) ∧
      SortsFrom (seen ++ [addr, behind]) ((addr, seen ++ [behind]) :: gaps) rest

/-- The scan of the addresses can be run. -/
def decideSortsFrom (seen : List UInt16) (gaps : List (UInt16 × List UInt16)) :
    (addrs : List UInt16) → Decidable (SortsFrom seen gaps addrs)
  | [] => isTrue trivial
  | [_] => inferInstanceAs (Decidable (_ ∨ _))
  | addr :: behind :: rest =>
    if habove : ∀ a ∈ seen, a < addr then
      have := decideSortsFrom (seen ++ [addr]) gaps (behind :: rest)
      decidable_of_iff _ (iff_of_eq (if_pos habove).symm)
    else
      have := decideSortsFrom (seen ++ [addr, behind]) ((addr, seen ++ [behind]) :: gaps) rest
      decidable_of_iff (_ ∧ _ ∧ _) (iff_of_eq (if_neg habove).symm)

instance (seen : List UInt16) (gaps : List (UInt16 × List UInt16)) (addrs : List UInt16) :
    Decidable (SortsFrom seen gaps addrs) :=
  decideSortsFrom seen gaps addrs

example : SortsFrom [] [] [1, 4, 2, 5, 7, 6] := by decide

example : ¬ SortsFrom [] [] [3, 2, 1] := by decide

section Run

variable {data : ℕ → Option ExtData}

/-- The first entry that passes a test. -/
theorem exists_first {P : ℕ → Prop} {xs : List ℕ} (h : ∃ x ∈ xs, P x) :
    ∃ before x after, xs = before ++ x :: after ∧ (∀ p ∈ before, ¬ P p) ∧ P x := by
  induction xs with
  | nil =>
    obtain ⟨x, hx, -⟩ := h
    cases hx
  | cons y xs ih =>
    by_cases hy : P y
    · exact ⟨[], y, xs, rfl, by simp, hy⟩
    · obtain ⟨x, hx, hP⟩ := h
      rcases List.mem_cons.mp hx with rfl | hx
      · exact absurd hP hy
      · obtain ⟨before, z, after, rfl, hbefore, hz⟩ := ih ⟨x, hx, hP⟩
        exact ⟨y :: before, z, after, rfl, List.forall_mem_cons.mpr ⟨hy, hbefore⟩, hz⟩

/-- A node leads to the one behind it. -/
theorem SortState.next_eq {h : LinkHeap ExtData} {start : Option ℕ} {done rest : List ℕ} {node : ℕ}
    (hstate : SortState data h start (done ++ rest)) (hnode : done.getLast? = some node) :
    nextOf h node = rest.head? := by
  obtain ⟨mid, rfl⟩ := List.getLast?_eq_some_iff.mp hnode
  obtain ⟨place, hdone, hrest⟩ := (linkPath_append ..).mp hstate.path
  rw [((linkPath_concat ..).mp hdone).2, hrest.start_eq, Option.or_none]

/-- One round of the outer loop, at a node that has one behind it. -/
theorem sortFrom_round {fuel rounds top top' node next : ℕ} {list list' : ExtDataList}
    (hnext : nextOf list.heap node = some next)
    (hplace : sortPlace list top node next fuel (some top) = some (list', top'))
    (halloc : (dataOf list'.heap node).isSome) :
    sortFrom fuel (rounds + 1) list top (some node) =
      sortFrom fuel rounds list' top' (nextOf list'.heap node) := by
  obtain ⟨entry, hentry, hentryNext⟩ := Option.bind_eq_some_iff.mp hnext
  obtain ⟨entry', hentry', hnext', -⟩ := exists_node halloc
  rw [sortFrom, hentry, Option.bind_eq_bind, Option.bind_some, ← hnext']
  simp only [hentryNext, hplace, Option.bind_eq_bind, Option.bind_some, hentry']

/-- One round of the outer loop, at a node that has none behind it. -/
theorem sortFrom_last {fuel rounds top node : ℕ} {list : ExtDataList}
    (hnext : nextOf list.heap node = none)
    (halloc : (dataOf list.heap node).isSome) :
    sortFrom fuel (rounds + 1) list top (some node) = sortFrom fuel rounds list top none := by
  obtain ⟨entry, hentry, hentryNext, -⟩ := exists_node halloc
  rw [hnext] at hentryNext
  rw [sortFrom, hentry, Option.bind_eq_bind, Option.bind_some]
  simp only [hentryNext, Option.bind_eq_bind, Option.bind_some, hentry]

/-- A round that moves the node behind the current one. -/
theorem SortState.round_moves {list : ExtDataList} {before after rest : List ℕ} {top node next tmp : ℕ}
    (hstate : SortState data list.heap (some top) (before ++ tmp :: after ++ next :: rest))
    (hstart : list.pList = some top)
    (hnode : (before ++ tmp :: after).getLast? = some node) {fuel : ℕ} (rounds : ℕ)
    (hfuel : (before ++ tmp :: after).length < fuel)
    (hfail : ∀ p ∈ before, ¬ PlaceHere data (prevOf list.heap p) p next)
    (hpass : PlaceHere data (prevOf list.heap tmp) tmp next) :
    ∃ list' top' front, sortFrom fuel (rounds + 1) list top (some node) =
      sortFrom fuel rounds list' top' rest.head? ∧
      list'.pList = some top' ∧
      SortState data list'.heap (some top') (front ++ (tmp :: after ++ rest)) ∧
      front.Sublist (before ++ [next]) ∧
      (front = before ++ [next] ↔ prevOf list.heap tmp = before.getLast?) ∧
      prevOf list'.heap = splicedPrev (nextOf list.heap) (prevOf list.heap) node next tmp rest.head? ∧
      splicedNext (nextOf list.heap) (prevOf list.heap) node next tmp rest.head? tmp =
      (after ++ rest).head? := by
  have hlast : (tmp :: after).getLast? = some node := by
    rw [List.getLast?_append] at hnode
    simpa [List.getLast?_cons] using hnode
  obtain ⟨list', top', front, hplace, hstart', hstate', hfront⟩ :=
    hstate.moves hstart hlast hfuel hfail hpass
  have hnext := hstate.next_eq hnode
  have hstate'' := hstate'
  rw [← List.append_assoc] at hstate''
  have hnext' := hstate''.next_eq (by rw [List.getLast?_append, hlast]; rfl)
  have halloc : (dataOf list'.heap node).isSome :=
    hstate'.data_eq ▸ hstate'.back.alloc node (by
      have := List.mem_of_getLast? hlast
      simp only [List.mem_append]
      exact .inr (.inl this))
  exact ⟨list', top', front, by rw [sortFrom_round hnext hplace halloc, hnext'], hstart',
    hstate', hfront⟩

/-- Whatever is moved, the loop returns, and the list does not get longer. If it keeps its length,
the nodes seen so far keep their order. -/
theorem sortFrom_shrinks {fuel : ℕ} (rounds : ℕ) {list : ExtDataList} {top : ℕ} {done rest : List ℕ}
    (hrounds : rest.length < rounds) (hfuel : (done ++ rest).length < fuel)
    (hstart : list.pList = some top) (hstate : SortState data list.heap (some top) (done ++ rest)) :
    ∃ list' final, sortFrom fuel rounds list top rest.head? = some list' ∧
      SortState data list'.heap list'.pList final ∧
      final.length ≤ (done ++ rest).length ∧
      (final.length = (done ++ rest).length → (done ++ rest.take 1).Sublist final) := by
  induction rounds generalizing list top done rest with
  | zero => omega
  | succ rounds ih =>
    cases rest with
    | nil => exact ⟨list, done ++ [], rfl, hstart ▸ hstate, le_rfl, fun _ => List.Sublist.refl _⟩
    | cons node rest =>
      have hshift : done ++ node :: rest = done ++ [node] ++ rest := by simp
      have htake : done ++ (node :: rest).take 1 = done ++ [node] := by simp
      rw [htake, hshift, List.head?_cons]
      rw [hshift] at hstate hfuel
      rw [List.length_cons] at hrounds
      have hnext := hstate.next_eq List.getLast?_concat
      have halloc : (dataOf list.heap node).isSome := hstate.data_eq ▸ hstate.back.alloc node (by simp)
      cases rest with
      | nil =>
        obtain ⟨list', final, hrun, hfinal, hlen, hkeep⟩ := ih (by omega) hfuel hstart hstate
        exact ⟨list', final, (sortFrom_last hnext halloc).trans hrun, hfinal, hlen,
          fun heq => (List.sublist_append_left _ _).trans (hkeep heq)⟩
      | cons x rest =>
        have hdoneFuel : (done ++ [node]).length < fuel := by
          rw [List.length_append] at hfuel
          omega
        by_cases hfail : ∀ p ∈ done ++ [node], ¬ PlaceHere data (prevOf list.heap p) p x
        · obtain ⟨list', final, hrun, hfinal, hlen, hkeep⟩ := ih (by omega) hfuel hstart hstate
          rw [sortFrom_round hnext (hstate.stays hdoneFuel hfail) halloc, hnext]
          exact ⟨list', final, hrun, hfinal, hlen,
            fun heq => (List.sublist_append_left _ _).trans (hkeep heq)⟩
        · push Not at hfail
          obtain ⟨before, tmp, after, hsplit, hbefore, hpass⟩ := exists_first hfail
          have hlast : (before ++ tmp :: after).getLast? = some node := hsplit ▸ List.getLast?_concat
          rw [hsplit] at hstate hfuel hdoneFuel ⊢
          obtain ⟨list₁, top₁, front, hround, hstart₁, hstate₁, hsub, -⟩ :=
            hstate.round_moves hstart hlast rounds hdoneFuel hbefore hpass
          have hfront : front.length ≤ before.length + 1 := by simpa using hsub.length_le
          rw [List.length_cons] at hrounds
          rw [← List.append_assoc] at hstate₁
          simp only [List.length_append, List.length_cons] at hfuel ih ⊢
          obtain ⟨list', final, hrun, hfinal, hlen, hkeep⟩ := ih (by omega) (by simp only [List.length_append, List.length_cons]; omega) hstart₁ hstate₁
          simp only [List.length_append, List.length_cons] at hlen hkeep
          refine ⟨list', final, hround.trans hrun, hfinal, by omega, fun heq => ?_⟩
          rw [hsub.eq_of_length (by simp only [List.length_append, List.length_singleton]; omega)]
            at hkeep
          refine List.Sublist.trans ?_
            (hkeep (by simp only [List.length_append, List.length_singleton]; omega))
          exact ((List.sublist_append_left before [x]).append_right _).trans
            (List.sublist_append_left _ _)

end Run

/-- The first node that is not below an address has a `prev` that is not the node before it. -/
def ClosedAt (data : ℕ → Option ExtData) (back : ℕ → Option ℕ) (addr : UInt16) :
    Option ℕ → List ℕ → Prop
  | _, [] => False
  | last, p :: ps => if addrAt data p < addr then ClosedAt data back addr (some p) ps else back p ≠ last

section Closed

variable {data : ℕ → Option ExtData} {back back' : ℕ → Option ℕ} {addr : UInt16} {last : Option ℕ}

/-- Nodes below the address are passed. -/
theorem closedAt_append_below {xs : List ℕ} (ys : List ℕ) (hbelow : ∀ p ∈ xs, addrAt data p < addr) :
    ClosedAt data back addr last (xs ++ ys) ↔ ClosedAt data back addr (xs.getLast?.or last) ys := by
  induction xs generalizing last with
  | nil => rfl
  | cons p xs ih =>
    obtain ⟨hp, hbelow⟩ := List.forall_mem_cons.mp hbelow
    rw [List.cons_append, ClosedAt, if_pos hp, ih hbelow, List.getLast?_cons]
    cases xs.getLast? <;> rfl

/-- Nodes behind the first one that is not below the address do not count. -/
theorem closedAt_append_found {xs : List ℕ} (ys : List ℕ) (hfound : ∃ p ∈ xs, ¬ addrAt data p < addr) :
    ClosedAt data back addr last (xs ++ ys) ↔ ClosedAt data back addr last xs := by
  induction xs generalizing last with
  | nil =>
    obtain ⟨p, hp, -⟩ := hfound
    cases hp
  | cons p xs ih =>
    rw [List.cons_append, ClosedAt, ClosedAt]
    split
    · next hp =>
      obtain ⟨q, hq, hnot⟩ := hfound
      rcases List.mem_cons.mp hq with rfl | hq
      · exact absurd hp hnot
      · exact ih ⟨q, hq, hnot⟩
    · rfl

/-- It depends on the `prev` of the nodes that are looked at. -/
theorem closedAt_congr {xs : List ℕ} (hsame : ∀ p ∈ xs, back' p = back p) :
    ClosedAt data back' addr last xs ↔ ClosedAt data back addr last xs := by
  induction xs generalizing last with
  | nil => rfl
  | cons p xs ih =>
    obtain ⟨hp, hsame⟩ := List.forall_mem_cons.mp hsame
    rw [ClosedAt, ClosedAt, ih hsame, hp]

/-- A node at the end with the one before it as its `prev` does not count. -/
theorem closedAt_concat {xs : List ℕ} {p : ℕ} (hp : back p = xs.getLast?.or last) :
    ClosedAt data back addr last (xs ++ [p]) ↔ ClosedAt data back addr last xs := by
  by_cases hbelow : ∀ q ∈ xs, addrAt data q < addr
  · rw [closedAt_append_below _ hbelow, ← List.append_nil xs,
      closedAt_append_below [] (by simpa using hbelow)]
    simp [ClosedAt, hp]
  · push Not at hbelow
    exact closedAt_append_found _ hbelow

/-- The gap of a moved node reaches to the second node behind it. -/
theorem inGap_iff {below above seen : List UInt16} {low first second : UInt16}
    (hperm : seen.Perm (below ++ first :: second :: above))
    (hbelow : ∀ a ∈ below, a < low) (hlow : low ≤ first) (hfirst : first ≤ second)
    (habove : ∀ a ∈ above, second ≤ a) :
    InGap (low, seen) addr ↔ low < addr ∧ addr ≤ second := by
  have hbelowCount : below.countP (fun a => low ≤ a ∧ a < addr) = 0 :=
    List.countP_eq_zero.mpr fun a ha => by
      simpa using fun hle => absurd (hbelow a ha) (UInt16.not_lt.mpr hle)
  rw [InGap, hperm.countP_eq, List.countP_append, hbelowCount, Nat.zero_add, List.countP_cons,
    List.countP_cons]
  refine and_congr_right fun hlt => ?_
  by_cases hsecond : addr ≤ second
  · have haboveCount : above.countP (fun a => low ≤ a ∧ a < addr) = 0 :=
      List.countP_eq_zero.mpr fun a ha => by
        simpa using fun _ => UInt16.le_trans hsecond (habove a ha)
    have hnot : ¬ second < addr := UInt16.not_lt.mpr hsecond
    simp only [haboveCount, hnot, and_false, decide_false, Bool.false_eq_true, if_false,
      hsecond, iff_true]
    split <;> omega
  · have hlt : second < addr := UInt16.not_le.mp hsecond
    have hlow' : low ≤ second := UInt16.le_trans hlow hfirst
    have hfirst' : first < addr := UInt16.lt_of_le_of_lt hfirst hlt
    simp [hlt, hlow, hlow', hfirst', hsecond]

/-- A move to a node that was not closed closes the gap of the moved node, and nothing else. -/
theorem closedAt_moved {before after : List ℕ} {tmp next behind second : ℕ} {others : List ℕ}
    {seen : List UInt16}
    (hsecond : after ++ [behind] = second :: others) (hbefore : ∀ p ∈ before, back' p = back p)
    (hopen : back tmp = before.getLast?) (hnext : back' next = back tmp) (htmp : back' tmp = back tmp)
    (hback : back' second = some next) (hkeep : ∀ p ∈ after.tail, back' p = back p)
    (hlast : after ≠ [] → back' behind = after.getLast?)
    (hfresh : next ∉ before) (hne : tmp ≠ next)
    (hperm : seen.Perm ((before ++ tmp :: second :: others).map (addrAt data)))
    (hbelow : ∀ p ∈ before, addrAt data p < addrAt data next)
    (hplace : addrAt data next ≤ addrAt data tmp)
    (hascend : (tmp :: second :: others).Pairwise fun p q => addrAt data p ≤ addrAt data q) :
    ClosedAt data back' addr none (before ++ next :: tmp :: (after ++ [behind])) ↔
      ClosedAt data back addr none (before ++ tmp :: after) ∨ InGap (addrAt data next, seen) addr := by
  obtain ⟨htmpAbove, hsecondAbove⟩ := List.pairwise_cons.mp hascend
  have htmpSecond := htmpAbove second List.mem_cons_self
  rw [List.map_append, List.map_cons, List.map_cons] at hperm
  have hgap : InGap (addrAt data next, seen) addr ↔ addrAt data next < addr ∧
      addr ≤ addrAt data second := by
    refine inGap_iff hperm ?_ hplace htmpSecond ?_
    · simpa using hbelow
    · simpa using (List.pairwise_cons.mp hsecondAbove).1
  rw [hgap]
  by_cases hb : ∀ p ∈ before, addrAt data p < addr
  · rw [closedAt_append_below _ hb, closedAt_append_below _ hb, Option.or_none, hsecond, ClosedAt,
      ClosedAt, ClosedAt, ClosedAt]
    by_cases hx : addrAt data next < addr
    · by_cases ht : addrAt data tmp < addr
      · by_cases hs : addrAt data second < addr
        · have hside : ClosedAt data back' addr (some second) others ↔
              ClosedAt data back addr (some tmp) after := by
            cases after with
            | nil =>
              obtain ⟨rfl, rfl⟩ := List.cons.inj hsecond
              rfl
            | cons s after =>
              rw [List.cons_append] at hsecond
              rw [List.tail_cons] at hkeep
              obtain ⟨rfl, rfl⟩ := List.cons.inj hsecond
              have hbehind : back' behind = after.getLast?.or (some s) := by
                rw [hlast (by simp), List.getLast?_cons]
                cases after.getLast? <;> rfl
              rw [closedAt_concat hbehind, closedAt_congr hkeep, ClosedAt, if_pos hs]
          simp [hx, ht, hs, hside, UInt16.not_le.mpr hs]
        · simp [hx, ht, hs, hback, hne.symm, UInt16.not_lt.mp hs]
      · have hle := UInt16.le_trans (UInt16.not_lt.mp ht) htmpSecond
        have hclosed : before.getLast? ≠ some next := fun h => hfresh (List.mem_of_getLast? h)
        simp [hx, ht, hle, htmp, hopen, hclosed]
    · have ht : ¬ addrAt data tmp < addr :=
        UInt16.not_lt.mpr (UInt16.le_trans (UInt16.not_lt.mp hx) hplace)
      simp [hx, ht, hnext, hopen]
  · have hfound : ∃ p ∈ before, ¬ addrAt data p < addr := by simpa using hb
    have hx : ¬ addrAt data next < addr := by
      obtain ⟨p, hp, hle⟩ := hfound
      exact fun hlt => hle (UInt16.lt_trans (hbelow p hp) hlt)
    rw [closedAt_append_found _ hfound, closedAt_append_found _ hfound, closedAt_congr hbefore]
    simp [hx]

end Closed

/-- A run in which no node got lost so far: those seen are in order, and the gaps are where a node
that is put in next would take others out. -/
structure InOrder (data : ℕ → Option ExtData) (h : LinkHeap ExtData) (start : Option ℕ)
    (done rest : List ℕ)
    (seen : List UInt16) (gaps : List (UInt16 × List UInt16)) : Prop where
  state : SortState data h start (done ++ rest)
  all : ∀ p, (data p).isSome → p ∈ done ++ rest
  ascend : done.Pairwise fun p q => addrAt data p ≤ addrAt data q
  rest : BackPath (prevOf h) done.getLast? rest
  seen : seen.Perm (done.map (addrAt data))
  gaps : ∀ addr, ClosedAt data (prevOf h) addr none done ↔ ∃ gap ∈ gaps, InGap gap addr

section Order

variable {data : ℕ → Option ExtData} {h h' : LinkHeap ExtData} {start start' : Option ℕ}
  {done rest before after : List ℕ}
  {seen : List UInt16} {gaps : List (UInt16 × List UInt16)} {node next tmp behind : ℕ}

/-- A node above all before it is seen in order. -/
theorem InOrder.stays (horder : InOrder data h start done (next :: rest) seen gaps)
    (habove : ∀ p ∈ done, addrAt data p < addrAt data next) :
    InOrder data h start (done ++ [next]) rest (seen ++ [addrAt data next]) gaps where
  state := by simpa using horder.state
  all := by simpa using horder.all
  ascend := by
    rw [List.pairwise_append]
    refine ⟨horder.ascend, List.pairwise_singleton _ _, fun p hp q hq => ?_⟩
    rw [List.mem_singleton.mp hq]
    exact UInt16.le_of_lt (habove p hp)
  rest := by
    rw [List.getLast?_concat]
    exact horder.rest.2
  seen := by
    rw [List.map_append]
    exact horder.seen.append_right _
  gaps addr := by
    rw [closedAt_concat (by rw [horder.rest.1, Option.or_none])]
    exact horder.gaps addr

/-- The first node that is not below the moved one passes the test of the sort. -/
theorem InOrder.placeHere
    (horder : InOrder data h start (before ++ tmp :: after) (next :: rest) seen gaps)
    (hbelow : ∀ p ∈ before, addrAt data p < addrAt data next)
    (hplace : addrAt data next ≤ addrAt data tmp) :
    PlaceHere data (prevOf h tmp) tmp next := by
  refine ⟨hplace, fun q hq => ?_⟩
  have hmem := horder.all q (horder.state.back.backAlloc tmp (by simp) q hq)
  have hself := horder.state.back.self tmp (by simp)
  have hlater := horder.state.back.later
  rw [List.append_assoc, List.pairwise_append] at hlater
  rw [List.append_assoc] at hmem
  rcases List.mem_append.mp hmem with hmem | hmem
  · exact UInt16.le_of_lt (hbelow q hmem)
  · rcases List.mem_cons.mp hmem with rfl | hmem
    · exact absurd hq hself
    · exact absurd hq ((List.pairwise_cons.mp hlater.2.1).1 q hmem)

/-- Before the first node that is not below it a node keeps the order. -/
theorem ascend_insert
    (hascend : (before ++ tmp :: after).Pairwise fun p q => addrAt data p ≤ addrAt data q)
    (hbelow : ∀ p ∈ before, addrAt data p < addrAt data next)
    (hplace : addrAt data next ≤ addrAt data tmp) :
    (before ++ next :: tmp :: after).Pairwise fun p q => addrAt data p ≤ addrAt data q := by
  obtain ⟨hbefore, htail, hcross⟩ := List.pairwise_append.mp hascend
  rw [List.pairwise_append, List.pairwise_cons]
  refine ⟨hbefore, ⟨fun q hq => ?_, htail⟩, fun p hp q hq => ?_⟩
  · rcases List.mem_cons.mp hq with rfl | hq
    · exact hplace
    · exact UInt16.le_trans hplace ((List.pairwise_cons.mp htail).1 q hq)
  · rcases List.mem_cons.mp hq with rfl | hq
    · exact UInt16.le_of_lt (hbelow p hp)
    · exact hcross p hp q hq

/-- A node that is put where no gap is, and one behind it that is not below any before, are seen in
order. -/
theorem InOrder.moves
    (horder : InOrder data h start (before ++ tmp :: after) (next :: behind :: rest) seen gaps)
    (hnode : (tmp :: after).getLast? = some node)
    (hbelow : ∀ p ∈ before, addrAt data p < addrAt data next)
    (hplace : addrAt data next ≤ addrAt data tmp)
    (hopen : prevOf h tmp = before.getLast?)
    (hbehind : ∀ p ∈ before ++ tmp :: after, addrAt data p ≤ addrAt data behind)
    (hstate : SortState data h' start' (before ++ [next] ++ (tmp :: after ++ behind :: rest)))
    (hprev : prevOf h' = splicedPrev (nextOf h) (prevOf h) node next tmp (behind :: rest).head?)
    (hright : splicedNext (nextOf h) (prevOf h) node next tmp (behind :: rest).head? tmp =
      (after ++ behind :: rest).head?) :
    InOrder data h' start' (before ++ next :: tmp :: (after ++ [behind])) rest
      (seen ++ [addrAt data next, addrAt data behind])
      ((addrAt data next, seen ++ [addrAt data behind]) :: gaps) := by
  have hnodup := horder.state.back.nodup
  have hsame {p : ℕ} (hp : p ∈ before ++ tmp :: (after.tail ++ rest)) : prevOf h' p = prevOf h p :=
    hprev ▸ splicedPrev_same hnodup hright hp
  have hnextFresh : next ∉ before ++ tmp :: after ++ behind :: rest :=
    (List.nodup_cons.mp (List.perm_middle.nodup hnodup)).1
  have hbehindFresh : behind ∉ before ++ tmp :: after ++ [next] ++ rest := by
    refine (List.nodup_cons.mp (List.perm_middle.nodup ?_)).1
    simpa using hnodup
  have hascend : (before ++ tmp :: (after ++ [behind])).Pairwise fun p q => addrAt data p ≤
      addrAt data q := by
    rw [← List.cons_append, ← List.append_assoc, List.pairwise_append]
    refine ⟨horder.ascend, List.pairwise_singleton _ _, fun p hp q hq => ?_⟩
    rw [List.mem_singleton.mp hq]
    exact hbehind p hp
  have htail := (List.pairwise_append.mp hascend).2.1
  refine ⟨by simpa using hstate, fun p hp => ?_, ?_, ?_, ?_, fun addr => ?_⟩
  · have hmem := horder.all p hp
    simp only [List.mem_append, List.mem_cons] at hmem ⊢
    tauto
  · exact ascend_insert hascend hbelow hplace
  · have hlast : (before ++ next :: tmp :: (after ++ [behind])).getLast? = some behind := by
      simp [List.getLast?_append, List.getLast?_cons]
    rw [hlast]
    exact horder.rest.2.2.congr fun p hp => hsame (by simp [hp])
  · have hperm : (before ++ tmp :: after ++ [next, behind]).Perm
        (before ++ next :: tmp :: (after ++ [behind])) := by
      rw [List.append_assoc]
      exact List.perm_middle.append_left before
    refine List.Perm.trans ?_ (hperm.map (addrAt data))
    rw [List.map_append]
    exact horder.seen.append_right _
  · obtain ⟨second, others, hsecond⟩ : ∃ second others, after ++ [behind] = second :: others := by
      cases after with
      | nil => exact ⟨_, _, rfl⟩
      | cons s after => exact ⟨_, _, rfl⟩
    have hhead : (after ++ behind :: rest).head? = some second := by
      rw [← List.singleton_append, ← List.append_assoc, hsecond]
      rfl
    have hperm : (seen ++ [addrAt data behind]).Perm
        ((before ++ tmp :: second :: others).map (addrAt data)) := by
      rw [← hsecond, ← List.cons_append, ← List.append_assoc, List.map_append]
      exact horder.seen.append_right _
    rw [closedAt_moved hsecond (fun p hp => hsame (List.mem_append_left _ hp)) hopen ?_
      (hsame (by simp)) ?_
      (fun p hp => hsame (by simp [hp])) ?_ ?_ ?_ hperm hbelow hplace (hsecond ▸ htail), horder.gaps]
    · simp [or_comm]
    · refine hprev ▸ splicedPrev_next hright fun heq => hnextFresh ?_
      rw [List.append_assoc]
      exact List.mem_append_right _ (List.mem_cons_of_mem _ (List.mem_of_mem_head? heq))
    · exact hprev ▸ splicedPrev_right hright hhead
    · intro hafter
      obtain ⟨s, others', rfl⟩ := List.exists_cons_of_ne_nil hafter
      have hnodeLast : (s :: others').getLast? = some node := by
        rw [List.getLast?_cons_cons] at hnode
        exact hnode
      have hne : s ≠ behind := by
        rintro rfl
        exact hbehindFresh (by simp)
      rw [hprev, splicedPrev_behind hright rfl (fun heq => hnextFresh (by simp [← heq]))
        (fun heq => hne (Option.some.inj heq)), hnodeLast]
    · exact fun hmem => hnextFresh (List.mem_append_left _ (List.mem_append_left _ hmem))
    · exact fun heq => hnextFresh (by simp [heq])

end Order

/-- Sorting ends with the nodes of a list in the order of their addresses. -/
def SortedFrom (data : ℕ → Option ExtData) (chain : List ℕ) (result : Option ExtDataList) : Prop :=
  ∃ list' final, result = some list' ∧ SortState data list'.heap list'.pList final ∧ final.Perm chain ∧
    final.Pairwise fun p q => addrAt data p ≤ addrAt data q

/-- Only one list is left in the end. -/
theorem SortedFrom.of_final {data : ℕ → Option ExtData} {chain final : List ℕ}
    {result : Option ExtDataList} {list' : ExtDataList}
    (hresult : result = some list') (hfinal : SortState data list'.heap list'.pList final) :
    SortedFrom data chain result ↔ final.Perm chain ∧ final.Pairwise fun p q => addrAt data p ≤
      addrAt data q := by
  constructor
  · rintro ⟨list'', final', hresult', hfinal', hsorted⟩
    obtain rfl := Option.some.inj (hresult.symm.trans hresult')
    rwa [hfinal.path.unique hfinal'.path]
  · exact fun hsorted => ⟨list', final, hresult, hfinal, hsorted⟩

/-- Fewer nodes than there were are not a permutation of them. -/
theorem SortedFrom.of_lost {data : ℕ → Option ExtData} {chain final : List ℕ}
    {result : Option ExtDataList} {list' : ExtDataList}
    (hresult : result = some list') (hfinal : SortState data list'.heap list'.pList final)
    (hlost : final.length < chain.length) :
    ¬ SortedFrom data chain result :=
  fun h => hlost.ne ((of_final hresult hfinal).mp h).1.length_eq

/-- The order of the nodes before does not matter. -/
theorem SortedFrom.congr {data : ℕ → Option ExtData} {chain chain' : List ℕ}
    {result : Option ExtDataList} (hperm : chain.Perm chain') :
    SortedFrom data chain result ↔ SortedFrom data chain' result := by
  simp only [SortedFrom, hperm.congr_right]

/-- An address above all before it is seen. -/
theorem sortsFrom_above {seen : List UInt16} {gaps : List (UInt16 × List UInt16)} {addr : UInt16}
    (rest : List UInt16)
    (habove : ∀ a ∈ seen, a < addr) : SortsFrom seen gaps (addr :: rest) ↔
    SortsFrom (seen ++ [addr]) gaps rest := by
  cases rest with
  | nil => exact iff_of_true (.inl habove) trivial
  | cons behind rest => rw [SortsFrom, if_pos habove]

/-- An address that is not above all before it lies in no gap. -/
theorem sortsFrom_gaps {seen : List UInt16} {gaps : List (UInt16 × List UInt16)} {addr : UInt16}
    {rest : List UInt16}
    (h : SortsFrom seen gaps (addr :: rest)) (habove : ¬ ∀ a ∈ seen, a < addr) :
    ∀ gap ∈ gaps, ¬ InGap gap addr := by
  cases rest with
  | nil => exact h.resolve_left habove
  | cons behind rest =>
    rw [SortsFrom, if_neg habove] at h
    exact h.1

/-- The addresses seen are above or not above those of a node alike. -/
theorem InOrder.seen_iff {data : ℕ → Option ExtData} {h : LinkHeap ExtData} {start : Option ℕ}
    {done rest : List ℕ}
    {seen : List UInt16} {gaps : List (UInt16 × List UInt16)}
    (horder : InOrder data h start done rest seen gaps) (P : UInt16 → Prop) :
    (∀ a ∈ seen, P a) ↔ ∀ p ∈ done, P (addrAt data p) := by
  simp only [horder.seen.mem_iff, List.forall_mem_map]

/-- The loop sorts the list if and only if the scan of the addresses that are left passes. -/
theorem sortFrom_iff {fuel : ℕ} (rounds : ℕ) {data : ℕ → Option ExtData} {list : ExtDataList}
    {top node : ℕ} {done rest : List ℕ}
    {seen : List UInt16} {gaps : List (UInt16 × List UInt16)} (hrounds : rest.length + 1 < rounds)
    (hfuel : (done ++ rest).length < fuel)
    (hnode : done.getLast? = some node) (hstart : list.pList = some top)
    (horder : InOrder data list.heap (some top) done rest seen gaps) :
    SortedFrom data (done ++ rest) (sortFrom fuel rounds list top (some node)) ↔
      SortsFrom seen gaps (rest.map (addrAt data)) := by
  induction rounds generalizing list top node done rest seen gaps with
  | zero => omega
  | succ rounds ih =>
    have hnext := horder.state.next_eq hnode
    have hnodeMem := List.mem_of_getLast? hnode
    have halloc : (dataOf list.heap node).isSome := by
      rw [horder.state.data_eq]
      exact horder.state.back.alloc node (List.mem_append_left _ hnodeMem)
    cases rest with
    | nil =>
      obtain ⟨rounds, rfl⟩ : ∃ k, rounds = k + 1 :=
        ⟨rounds - 1, by simp only [List.length_nil] at hrounds; omega⟩
      rw [SortedFrom.of_final (sortFrom_last hnext halloc) (hstart ▸ horder.state), List.append_nil]
      exact iff_of_true ⟨.rfl, horder.ascend⟩ trivial
    | cons x rest =>
      rw [List.length_cons] at hrounds
      have hdoneFuel : done.length < fuel := by
        rw [List.length_append] at hfuel
        omega
      have hshift : done ++ x :: rest = done ++ [x] ++ rest := by simp
      by_cases habove : ∀ p ∈ done, addrAt data p < addrAt data x
      · have hstays : sortPlace list top node x fuel (some top) = some (list, top) :=
          horder.state.stays hdoneFuel fun p hp hplace => UInt16.not_le.mpr (habove p hp) hplace.1
        rw [sortFrom_round hnext hstays halloc, hnext, List.map_cons,
          sortsFrom_above _ ((horder.seen_iff _).mpr habove), hshift]
        exact ih (by omega) (hshift ▸ hfuel) List.getLast?_concat hstart (horder.stays habove)
      · have hfound : ∃ p ∈ done, ¬ addrAt data p < addrAt data x := by simpa using habove
        obtain ⟨before, tmp, after, rfl, hbefore, hplace⟩ := exists_first hfound
        have hbelow : ∀ p ∈ before, addrAt data p < addrAt data x :=
          fun p hp => not_not.mp (hbefore p hp)
        have hplace := UInt16.not_lt.mp hplace
        obtain ⟨list', top', front, hround, hstart', hstate', hsub, hfront, hprev, hright⟩ :=
          horder.state.round_moves hstart hnode rounds hdoneFuel
            (fun p hp h => UInt16.not_le.mpr (hbelow p hp) h.1)
            (horder.placeHere hbelow hplace)
        have hgaps : (∀ gap ∈ gaps, ¬ InGap gap (addrAt data x)) ↔
            prevOf list.heap tmp = before.getLast? := by
          have hclosed := horder.gaps (addrAt data x)
          rw [closedAt_append_below _ hbelow, ClosedAt, if_neg (UInt16.not_lt.mpr hplace),
            Option.or_none] at hclosed
          rw [← not_iff_not, ← ne_eq, hclosed]
          simp
        have hperm : (before ++ [x] ++ (tmp :: after ++ rest)).Perm
            (before ++ tmp :: after ++ x :: rest) := by
          rw [List.append_assoc, List.append_assoc, List.singleton_append]
          exact List.perm_middle.symm.append_left before
        have habove' : ¬ ∀ a ∈ seen, a < addrAt data x := fun h => habove ((horder.seen_iff _).mp h)
        have hstate'' := hstate'
        rw [← List.append_assoc] at hstate''
        have hlen := hperm.length_eq
        simp only [List.length_append, List.length_cons, List.length_nil] at hlen hfuel
        have hfrontLen : front.length ≤ before.length + 1 := by simpa using hsub.length_le
        have hfuel' : (front ++ tmp :: after ++ rest).length < fuel := by
          simp only [List.length_append, List.length_cons]
          omega
        by_cases hopen : prevOf list.heap tmp = before.getLast?
        · obtain rfl := hfront.mpr hopen
          cases rest with
          | nil =>
            obtain ⟨rounds, rfl⟩ : ∃ k, rounds = k + 1 := ⟨rounds - 1, by omega⟩
            rw [SortedFrom.of_final hround (hstart' ▸ hstate')]
            refine iff_of_true ⟨hperm, ?_⟩ (.inr (hgaps.mpr hopen))
            simpa using ascend_insert horder.ascend hbelow hplace
          | cons y rest =>
            rw [List.map_cons, List.map_cons, SortsFrom, if_neg habove',
              and_iff_right (hgaps.mpr hopen), horder.seen_iff fun a => a ≤ addrAt data y,
              hround]
            by_cases hy : ∀ p ∈ before ++ tmp :: after, addrAt data p ≤ addrAt data y
            · have hlast : (tmp :: after).getLast? = some node := by
                rw [List.getLast?_append] at hnode
                simpa [List.getLast?_cons] using hnode
              have hchain : before ++ [x] ++ (tmp :: after ++ y :: rest) = before ++ x :: tmp ::
                (after ++ [y]) ++ rest := by simp
              rw [← SortedFrom.congr hperm, hchain, and_iff_right hy]
              refine ih (by simp only [List.length_cons] at hrounds; omega) ?_ ?_ hstart'
                (horder.moves hlast hbelow hplace hopen hy hstate' hprev hright)
              · rw [← hchain, ← List.append_assoc]
                exact hfuel'
              · simp [List.getLast?_append, List.getLast?_cons]
            · obtain ⟨list'', final, hrun, hfinal, -, hkeep⟩ :=
                sortFrom_shrinks rounds (by omega) hfuel' hstart' hstate''
              rw [SortedFrom.of_final hrun hfinal]
              refine iff_of_false ?_ fun h => hy h.1
              rintro ⟨hfinalPerm, hascend⟩
              have hsublist :=
                hkeep (by rw [(hfinalPerm.trans hperm.symm).length_eq, ← List.append_assoc])
              have hpair := (List.pairwise_append.mp (hascend.sublist hsublist)).2.2
              refine hy fun p hp => hpair p ?_ y (by simp)
              simp only [List.mem_append, List.mem_cons] at hp ⊢
              tauto
        · have hlost : front.length < before.length + 1 := by
            refine lt_of_le_of_ne hfrontLen fun heq => hopen (hfront.mp ?_)
            exact hsub.eq_of_length (by simpa using heq)
          obtain ⟨list'', final, hrun, hfinal, hshort, -⟩ :=
            sortFrom_shrinks rounds (by omega) hfuel' hstart' hstate''
          refine iff_of_false (SortedFrom.of_lost (hround.trans hrun) hfinal ?_) fun h =>
            hopen (hgaps.mp (sortsFrom_gaps h habove'))
          simp only [List.length_append, List.length_cons] at hshort ⊢
          omega

section Whole

variable {fuel : ℕ} {list : ExtDataList} {nodes : List (ℕ × ExtData)}

/-- A list as the sort finds it. -/
theorem ExtDataListInv.sortState (hinv : ExtDataListInv list nodes) :
    SortState (dataOf list.heap) list.heap list.pList (nodes.map Prod.fst) ∧
      BackPath (prevOf list.heap) none (nodes.map Prod.fst) ∧
      ∀ x ∈ nodes, dataOf list.heap x.1 = some x.2 := by
  obtain ⟨last, hseg⟩ := hinv.linked.linked
  obtain ⟨hpath, hback, hdata⟩ := linkSeg_fields hseg
  obtain ⟨hself, hlater, hmem⟩ := hback.earlier hinv.linked.nodup nofun
  have halloc : ∀ p ∈ nodes.map Prod.fst, (dataOf list.heap p).isSome := by
    intro p hp
    rw [dataOf, Option.isSome_map]
    exact (hinv.alloc p).mpr hp
  refine ⟨⟨rfl, hpath, hinv.linked.nodup, halloc, fun p hp q hq => ?_, hself, hlater⟩, hback, hdata⟩
  rcases hmem p hp q hq with hnone | hq
  · cases hnone
  · exact halloc q hq

/-- The sort returns. -/
theorem sortExtdataLink_returns (hinv : ExtDataListInv list nodes) (hfuel : nodes.length < fuel) :
    ∃ list' final, sortExtdataLink fuel list = some list' ∧
      SortState (dataOf list.heap) list'.heap list'.pList final := by
  obtain ⟨hstate, -⟩ := hinv.sortState
  rw [sortExtdataLink]
  cases hstart : list.pList with
  | none => exact ⟨list, _, rfl, hstate⟩
  | some top =>
    rw [hstart] at hstate
    have hlen : (nodes.map Prod.fst).length < fuel := by rwa [List.length_map]
    have hhead : (nodes.map Prod.fst).head? = some top :=
      (hstate.path.start_eq.trans (Option.or_none ..)).symm
    obtain ⟨list', final, hrun, hfinal, -⟩ :=
      sortFrom_shrinks fuel hlen hlen hstart ((List.nil_append (nodes.map Prod.fst)).symm ▸ hstate)
    rw [hhead] at hrun
    exact ⟨list', final, hrun, hfinal⟩

/-- What the sort gives back, by the nodes that are left. -/
theorem sortsList_iff_sortedFrom (hinv : ExtDataListInv list nodes) (hfuel : nodes.length < fuel) :
    SortsList fuel list nodes ↔
      SortedFrom (dataOf list.heap) (nodes.map Prod.fst) (sortExtdataLink fuel list) := by
  obtain ⟨-, -, hdata⟩ := hinv.sortState
  obtain ⟨list', final, hrun, hfinal⟩ := sortExtdataLink_returns hinv hfuel
  rw [SortedFrom.of_final hrun hfinal]
  have haddr {xs : List (ℕ × ExtData)} (hxs : ∀ x ∈ xs, dataOf list.heap x.1 = some x.2) :
      (xs.Pairwise fun x y => x.2.xIo.usAddr ≤ y.2.xIo.usAddr) ↔
        (xs.map Prod.fst).Pairwise fun p q => addrAt (dataOf list.heap) p ≤
          addrAt (dataOf list.heap) q := by
    rw [List.pairwise_map]
    refine List.Pairwise.iff_of_mem fun {x y} hx hy => ?_
    rw [addrAt, addrAt, hxs x hx, hxs y hy]
    rfl
  constructor
  · rintro ⟨list'', nodes', hrun', hpath, hdata', hperm, hascend⟩
    obtain rfl := Option.some.inj (hrun.symm.trans hrun')
    rw [hfinal.data_eq] at hdata'
    rw [hfinal.path.unique hpath]
    exact ⟨hperm.map Prod.fst, (haddr hdata').mp hascend⟩
  · rintro ⟨hperm, hascend⟩
    -- the payloads go with the nodes
    set withData : ℕ → ℕ × ExtData := fun p => (p, (dataOf list.heap p).getD {}) with hwith
    have hnodes : (nodes.map Prod.fst).map withData = nodes := by
      rw [List.map_map]
      refine (List.map_congr_left fun x hx => ?_).trans (List.map_id _)
      simp only [Function.comp, hwith, hdata x hx, Option.getD_some, id_eq]
    have hfst : (final.map withData).map Prod.fst = final := by
      rw [List.map_map]
      exact List.map_id _
    have hperm' : (final.map withData).Perm nodes := hnodes ▸ hperm.map withData
    have hdata' : ∀ x ∈ final.map withData, dataOf list.heap x.1 = some x.2 :=
      fun x hx => hdata x (hperm'.mem_iff.mp hx)
    refine ⟨list', final.map withData, hrun, ?_, ?_, hperm', (haddr hdata').mpr (hfst.symm ▸ hascend)⟩
    · rw [hfst]
      exact hfinal.path
    · rw [hfinal.data_eq]
      exact hdata'

/-- The nodes come back in order if and only if the scan of their addresses passes. -/
theorem sortsList_scan (hinv : ExtDataListInv list nodes) (hfuel : nodes.length < fuel) :
    SortsList fuel list nodes ↔ SortsFrom [] [] (nodes.map (·.2.xIo.usAddr)) := by
  obtain ⟨hstate, hback, hdata⟩ := hinv.sortState
  rw [sortsList_iff_sortedFrom hinv hfuel]
  have haddrs : nodes.map (·.2.xIo.usAddr) = (nodes.map Prod.fst).map (addrAt (dataOf list.heap)) := by
    rw [List.map_map]
    refine List.map_congr_left fun x hx => ?_
    rw [Function.comp, addrAt, hdata x hx]
    rfl
  have hall : ∀ p, (dataOf list.heap p).isSome → p ∈ nodes.map Prod.fst := by
    intro p hp
    rw [dataOf, Option.isSome_map] at hp
    exact (hinv.alloc p).mp hp
  have hlen : (nodes.map Prod.fst).length < fuel := by rwa [List.length_map]
  rw [haddrs]
  cases hnodes : nodes.map Prod.fst with
  | nil =>
    rw [hnodes] at hstate
    have hnull : list.pList = none := hstate.path
    refine iff_of_true ⟨list, [], ?_, hstate, .refl _, .nil⟩ trivial
    rw [sortExtdataLink, hnull]
  | cons first rest =>
    rw [hnodes] at hstate hback hall hlen
    have hstart : list.pList = some first := hstate.path.1
    have horder : InOrder (dataOf list.heap) list.heap (some first) [first] rest
        [addrAt (dataOf list.heap) first] [] := by
      refine ⟨hstart ▸ hstate, hall, List.pairwise_singleton _ _, hback.2, .refl _, fun addr => ?_⟩
      simp [ClosedAt, hback.1]
    rw [sortExtdataLink, hstart, List.map_cons, sortsFrom_above _ (by simp)]
    exact sortFrom_iff fuel (by simpa using hlen) hlen rfl hstart horder

/-- The sort orders a list by its addresses if and only if the scan of its addresses passes. -/
theorem sortsList_iff (hinv : ExtDataListInv list nodes) (hfuel : nodes.length < fuel) :
    SortsList fuel list nodes ↔ SortsFrom [] [] (nodes.map (·.2.xIo.usAddr)) :=
  sortsList_scan hinv hfuel

end Whole

/-- Three variables with these addresses. -/
def threeNodes (a b c : UInt16) : List (ℕ × ExtData) :=
  [(1, { xIo := { usAddr := a } }), (2, { xIo := { usAddr := b } }),
      (3, { xIo := { usAddr := c } })]

/-- Three variables linked in this order. -/
def threeList (a b c : UInt16) : ExtDataList where
  heap
    | 1 => some ⟨{ xIo := { usAddr := a } }, some 2, none⟩
    | 2 => some ⟨{ xIo := { usAddr := b } }, some 3, some 1⟩
    | 3 => some ⟨{ xIo := { usAddr := c } }, none, some 2⟩
    | _ => none
  n := 3
  pList := some 1

/-- They are a list. -/
theorem threeList_inv (a b c : UInt16) : ExtDataListInv (threeList a b c) (threeNodes a b c) where
  linked := ⟨by simp [threeNodes], some 3, rfl, some 2, rfl, rfl, some 3, rfl, rfl, none, rfl, rfl, rfl⟩
  count := rfl
  alloc p := by
    match p with
    | 0 => simp [threeList, threeNodes]
    | 1 => simp [threeList, threeNodes]
    | 2 => simp [threeList, threeNodes]
    | 3 => simp [threeList, threeNodes]
    | p + 4 => simp [threeList, threeNodes]

/-- The last of three variables is put between the others. -/
theorem sortsList_three : SortsList 4 (threeList 1024 1026 1025) (threeNodes 1024 1026 1025) :=
  (sortsList_iff (threeList_inv 1024 1026 1025) (by decide)).mpr (by decide)

/-- Three variables in descending order do not get sorted. -/
theorem not_sortsList_descending : ¬ ∀ (fuel : ℕ) (list : ExtDataList) (nodes : List (ℕ × ExtData)),
    ExtDataListInv list nodes → nodes.length < fuel → SortsList fuel list nodes := by
  intro h
  obtain ⟨list', nodes', hrun, hpath, hdata, -, hascend⟩ :=
    h 4 _ _ (threeList_inv 1026 1025 1024) (by decide)
  have hlinks :=
    congrArg (Option.map fun list => (list.pList, nextOf list.heap 2, nextOf list.heap 1,
    nextOf list.heap 3,
    (dataOf list.heap 1).map (·.xIo.usAddr), (dataOf list.heap 3).map (·.xIo.usAddr))) hrun
  have hcomputed : (some 2, some 1, some 3, none, some 1026, some 1024) =
    (list'.pList, nextOf list'.heap 2, nextOf list'.heap 1,
      nextOf list'.heap 3, (dataOf list'.heap 1).map (·.xIo.usAddr),
      (dataOf list'.heap 3).map (·.xIo.usAddr)) :=
    Option.some.inj hlinks
  simp only [Prod.mk.injEq] at hcomputed
  obtain ⟨hstart, h₂, h₁, h₃, hdata₁, hdata₃⟩ := hcomputed
  have hpath' : LinkPath (nextOf list'.heap) list'.pList [2, 1, 3] none :=
    ⟨hstart.symm, h₂.symm, h₁.symm, h₃.symm⟩
  have hfst := hpath.unique hpath'
  obtain ⟨x, y, z, rfl⟩ :=
    List.length_eq_three.mp ((List.length_map _).symm.trans (congrArg List.length hfst))
  obtain ⟨-, hy, hz⟩ : x.1 = 2 ∧ y.1 = 1 ∧ z.1 = 3 := by simpa using hfst
  have hyData := hdata y (by simp)
  have hzData := hdata z (by simp)
  rw [hy] at hyData
  rw [hz] at hzData
  rw [hyData] at hdata₁
  rw [hzData] at hdata₃
  have hyAddr : (1026 : UInt16) = y.2.xIo.usAddr := Option.some.inj hdata₁
  have hzAddr : (1024 : UInt16) = z.2.xIo.usAddr := Option.some.inj hdata₃
  have hle : y.2.xIo.usAddr ≤ z.2.xIo.usAddr := by
    simp only [List.pairwise_cons] at hascend
    exact hascend.2.1 z (by simp)
  rw [← hyAddr, ← hzAddr] at hle
  exact absurd hle (by decide)

end DasEdge.VarManage
