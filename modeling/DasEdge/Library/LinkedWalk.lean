import DasEdge.Library.DoublyLinked

/-!
# Walks over doubly linked lists

What code does with a doubly linked list in loops and by its links: look for a node, go to the end
and append a node there, take a node out, free all nodes, write a payload. Each of them is one step
for the list, and leaves the nodes of other lists in the heap as they are. A loop is given a number
of rounds; no result means that they are spent, or that a link to no node is followed.
-/

namespace DasEdge.Library

variable {α : Type*}

/-- The last node from a node on. -/
def lastLink (h : LinkHeap α) : ℕ → ℕ → Option ℕ
  | 0, _ => none
  | fuel + 1, last =>
    match h last with
    | none => none
    | some node =>
      match node.next with
      | none => some last
      | some next => lastLink h fuel next

/-- The first node from a node on that passes a test, which may itself give no result. -/
def findLink (h : LinkHeap α) (test : α → Option Bool) : ℕ → Option ℕ → Option (Option ℕ)
  | 0, _ => none
  | _ + 1, none => some none
  | fuel + 1, some p =>
    match h p with
    | none => none
    | some node =>
      match test node.data with
      | none => none
      | some true => some (some p)
      | some false => findLink h test fuel node.next

/-- The nodes met by following `next` for at most `fuel` nodes. -/
def linkedNodes (h : LinkHeap α) : ℕ → Option ℕ → List (ℕ × α)
  | fuel + 1, some p =>
    match h p with
    | some node => (p, node.data) :: linkedNodes h fuel node.next
    | none => []
  | _, _ => []

/-- A node that is not linked is linked in behind the last one. -/
def appendLink (fuel : ℕ) (h : LinkHeap α) (start : Option ℕ) (p : ℕ) :
    Option (LinkHeap α × Option ℕ) :=
  match start with
  | none => some (h, some p)
  | some first =>
    (lastLink h fuel first).bind fun last =>
      (setNext h last (some p)).bind fun h => (setPrev h p (some last)).map fun h => (h, some first)

/-- A node `p` that is not linked is linked in before the node `q`. -/
def insertLink (h : LinkHeap α) (start : Option ℕ) (p q : ℕ) : Option (LinkHeap α × Option ℕ) :=
  (h q).bind fun node =>
    (setPrev h p node.prev).bind fun h =>
      (setEntry h start node.prev (some p)).bind fun (h, start) =>
        (setPrev h q (some p)).bind fun h => (setNext h p (some q)).map fun h => (h, start)

/-- A node is taken out and freed. -/
def unlinkNode (h : LinkHeap α) (start : Option ℕ) (p : ℕ) : Option (LinkHeap α × Option ℕ) :=
  (h p).bind fun node =>
    (setEntry h start node.prev node.next).bind fun (h, start) =>
      (setBack h node.next node.prev).map fun h => (Function.update h p none, start)

/-- All nodes from a node on are freed. -/
def freeLinks (h : LinkHeap α) : ℕ → Option ℕ → Option (LinkHeap α)
  | 0, _ => none
  | _ + 1, none => some h
  | fuel + 1, some p =>
    match h p with
    | none => none
    | some node => freeLinks (Function.update h p none) fuel node.next

/-- Writes the payload of a node. -/
def setData (h : LinkHeap α) (p : ℕ) (d : α) : Option (LinkHeap α) :=
  (h p).map fun node => Function.update h p (some { node with data := d })

/-- The addresses of a list. -/
def linkAddrs (xs : List (ℕ × α)) : List ℕ := xs.map Prod.fst

@[simp] theorem linkAddrs_nil : linkAddrs ([] : List (ℕ × α)) = [] := rfl

@[simp] theorem linkAddrs_cons (x : ℕ × α) (xs : List (ℕ × α)) :
    linkAddrs (x :: xs) = x.1 :: linkAddrs xs := rfl

@[simp] theorem linkAddrs_append (xs ys : List (ℕ × α)) :
    linkAddrs (xs ++ ys) = linkAddrs xs ++ linkAddrs ys :=
  List.map_append

/-- A heap is changed at most at some addresses. -/
def ChangedAt (h h' : LinkHeap α) (ps : List ℕ) : Prop := ∀ r, r ∉ ps → h' r = h r

/-- Nothing has changed. -/
theorem ChangedAt.refl (h : LinkHeap α) (ps : List ℕ) : ChangedAt h h ps := fun _ _ => rfl

/-- Changes one after another. -/
theorem ChangedAt.trans {h h' h'' : LinkHeap α} {ps : List ℕ} (first : ChangedAt h h' ps)
    (second : ChangedAt h' h'' ps) :
    ChangedAt h h'' ps :=
  fun r hr => (second r hr).trans (first r hr)

/-- More addresses. -/
theorem ChangedAt.mono {h h' : LinkHeap α} {ps qs : List ℕ} (hsub : ps ⊆ qs)
    (hat : ChangedAt h h' ps) : ChangedAt h h' qs :=
  fun r hr => hat r fun hmem => hr (hsub hmem)

/-- A write at one address. -/
theorem changedAt_update (h : LinkHeap α) {p : ℕ} (node : Option (LinkNode α)) {ps : List ℕ}
    (hp : p ∈ ps) :
    ChangedAt h (Function.update h p node) ps :=
  fun r hr => Function.update_of_ne (fun heq : r = p => hr (heq ▸ hp)) _ _

/-- A list stays where a heap changes at other addresses. -/
theorem LinkedList.congr {h h' : LinkHeap α} {start : Option ℕ} {xs : List (ℕ × α)} {ps : List ℕ}
    (hlist : LinkedList h start xs)
    (hat : ChangedAt h h' ps) (hoff : ∀ r ∈ linkAddrs xs, r ∉ ps) : LinkedList h' start xs := by
  obtain ⟨hnodup, last, hseg⟩ := hlist
  exact ⟨hnodup, last, linkSeg_congr (fun p hp => hat p (hoff p hp)) hseg⟩

/-- A segment that stops at null is entered at its first node. -/
theorem linkSeg_start {h : LinkHeap α} {prev start last : Option ℕ} {xs : List (ℕ × α)}
    (hseg : LinkSeg h prev start xs last none) :
    start = (linkAddrs xs).head? := by
  cases xs with
  | nil => exact hseg.2
  | cons x xs => exact hseg.1

/-- A segment is left at its last node, or where it was entered from. -/
theorem linkSeg_last {h : LinkHeap α} {prev start last stop : Option ℕ} {xs : List (ℕ × α)}
    (hseg : LinkSeg h prev start xs last stop) : last = (linkAddrs xs).getLast?.or prev := by
  induction xs generalizing prev start with
  | nil => exact hseg.1.symm
  | cons x xs ih =>
    obtain ⟨-, next, -, hrest⟩ := hseg
    rw [ih hrest, linkAddrs_cons, List.getLast?_cons]
    cases (linkAddrs xs).getLast? with
    | none => rfl
    | some q => rfl

/-- A list starts at its first node. -/
theorem LinkedList.start_eq {h : LinkHeap α} {start : Option ℕ} {xs : List (ℕ × α)}
    (hlist : LinkedList h start xs) :
    start = (linkAddrs xs).head? := by
  obtain ⟨last, hseg⟩ := hlist.linked
  exact linkSeg_start hseg

/-- A segment that stops at null is one list only. -/
theorem linkSeg_unique {h : LinkHeap α} {prev start last last' : Option ℕ} {xs ys : List (ℕ × α)}
    (hxs : LinkSeg h prev start xs last none) (hys : LinkSeg h prev start ys last' none) : xs = ys := by
  induction xs generalizing prev start ys with
  | nil =>
    obtain ⟨-, rfl⟩ := hxs
    cases ys with
    | nil => rfl
    | cons y ys => cases hys.1
  | cons x xs ih =>
    obtain ⟨p, d⟩ := x
    obtain ⟨rfl, next, hnode, hrest⟩ := hxs
    cases ys with
    | nil => cases hys.2
    | cons y ys =>
      obtain ⟨q, e⟩ := y
      obtain ⟨hstart, next', hnode', hrest'⟩ := hys
      obtain rfl := Option.some.inj hstart
      rw [hnode] at hnode'
      obtain ⟨rfl, rfl, -⟩ := LinkNode.mk.inj (Option.some.inj hnode')
      rw [ih hrest hrest']

/-- A node of a list with its neighbours. -/
theorem LinkedList.node {h : LinkHeap α} {start : Option ℕ} {xs ys : List (ℕ × α)} {p : ℕ} {d : α}
    (hlist : LinkedList h start (xs ++ (p, d) :: ys)) :
    h p = some ⟨d, (linkAddrs ys).head?, (linkAddrs xs).getLast?⟩ := by
  obtain ⟨last, hseg⟩ := hlist.linked
  obtain ⟨mid, entry, hxs, -, next, hp, hys⟩ := (linkSeg_append ..).mp hseg
  rw [hp, linkSeg_start hys, linkSeg_last hxs, Option.or_none]

/-- Addresses of parts of a list differ. -/
theorem LinkedList.disjoint {h : LinkHeap α} {start : Option ℕ} {xs ys : List (ℕ × α)} {p : ℕ} {d : α}
    (hlist : LinkedList h start (xs ++ (p, d) :: ys)) : p ∉ linkAddrs xs ∧ p ∉ linkAddrs ys := by
  have hnodup := hlist.nodup
  rw [List.map_append, List.map_cons, List.nodup_append, List.nodup_cons] at hnodup
  exact ⟨fun hmem => hnodup.2.2 p hmem p List.mem_cons_self rfl, hnodup.2.1.1⟩

/-- Following `next` through a segment that ends in null meets its nodes. -/
theorem linkedNodes_eq {h : LinkHeap α} {prev start last : Option ℕ} {xs : List (ℕ × α)} {fuel : ℕ}
    (hfuel : xs.length ≤ fuel)
    (hseg : LinkSeg h prev start xs last none) : linkedNodes h fuel start = xs := by
  induction xs generalizing prev start fuel with
  | nil =>
    obtain ⟨-, rfl⟩ := hseg
    cases fuel <;> rfl
  | cons x xs ih =>
    obtain ⟨p, d⟩ := x
    obtain ⟨rfl, next, hp, hrest⟩ := hseg
    obtain ⟨fuel, rfl⟩ : ∃ k, fuel = k + 1 :=
      ⟨fuel - 1, by simp only [List.length_cons] at hfuel; omega⟩
    rw [linkedNodes, hp]
    simp only [ih (by simpa using hfuel) hrest]

/-- The search finds the first node that passes. -/
theorem findLink_eq {h : LinkHeap α} {test : α → Option Bool} {t : α → Bool}
    {prev start last : Option ℕ} {xs : List (ℕ × α)}
    {fuel : ℕ} (hfuel : xs.length < fuel) (htest : ∀ x ∈ xs, test x.2 = some (t x.2))
    (hseg : LinkSeg h prev start xs last none) :
    findLink h test fuel start = some ((xs.find? fun x => t x.2).map Prod.fst) := by
  induction xs generalizing prev start fuel with
  | nil =>
    obtain ⟨fuel, rfl⟩ : ∃ k, fuel = k + 1 := ⟨fuel - 1, by omega⟩
    obtain ⟨-, rfl⟩ := hseg
    rfl
  | cons x xs ih =>
    obtain ⟨p, d⟩ := x
    obtain ⟨fuel, rfl⟩ : ∃ k, fuel = k + 1 :=
      ⟨fuel - 1, by simp only [List.length_cons] at hfuel; omega⟩
    obtain ⟨rfl, next, hnode, hrest⟩ := hseg
    have hd : test d = some (t d) := htest (p, d) List.mem_cons_self
    have htail := ih (by simpa using hfuel) (fun x hx => htest x (List.mem_cons_of_mem _ hx)) hrest
    simp only [findLink, hnode, hd]
    cases ht : t d with
    | true => simp [ht]
    | false => simp [ht, htail]

/-- So it does with a test that always gives a result. -/
theorem LinkedList.find {h : LinkHeap α} {start : Option ℕ} {xs : List (ℕ × α)} {fuel : ℕ}
    (hlist : LinkedList h start xs)
    (hfuel : xs.length < fuel) (t : α → Bool) :
    findLink h (fun d => some (t d)) fuel start = some ((xs.find? fun x => t x.2).map Prod.fst) := by
  obtain ⟨last, hseg⟩ := hlist.linked
  exact findLink_eq hfuel (fun _ _ => rfl) hseg

/-- The walk to the end gets to the last node. -/
theorem lastLink_eq {h : LinkHeap α} {prev last : Option ℕ} {first q : ℕ} {xs : List (ℕ × α)}
    {e : α} {fuel : ℕ}
    (hfuel : xs.length < fuel) (hseg : LinkSeg h prev (some first) (xs ++ [(q, e)]) last none) :
    lastLink h fuel first = some q := by
  induction xs generalizing prev first fuel with
  | nil =>
    obtain ⟨fuel, rfl⟩ : ∃ k, fuel = k + 1 := ⟨fuel - 1, by omega⟩
    obtain ⟨hq, next, hnode, -, rfl⟩ := hseg
    cases hq
    simp [lastLink, hnode]
  | cons x xs ih =>
    obtain ⟨p, d⟩ := x
    obtain ⟨fuel, rfl⟩ : ∃ k, fuel = k + 1 :=
      ⟨fuel - 1, by simp only [List.length_cons] at hfuel; omega⟩
    obtain ⟨hp, next, hnode, hrest⟩ := hseg
    cases hp
    obtain ⟨second, rfl⟩ : ∃ second, next = some second := by
      cases xs with
      | nil => exact ⟨q, hrest.1⟩
      | cons y ys => exact ⟨y.1, hrest.1⟩
    simp only [lastLink, hnode]
    exact ih (by simpa using hfuel) hrest

/-- Writing `next` of a node that is there. -/
theorem setNext_changed {h h' : LinkHeap α} {p : ℕ} {next : Option ℕ} {ps : List ℕ} (hp : p ∈ ps)
    (hset : setNext h p next = some h') : ChangedAt h h' ps := by
  obtain ⟨node, -, rfl⟩ := Option.map_eq_some_iff.mp hset
  exact changedAt_update h _ hp

/-- Writing `prev` of a node that is there. -/
theorem setPrev_changed {h h' : LinkHeap α} {p : ℕ} {prev : Option ℕ} {ps : List ℕ} (hp : p ∈ ps)
    (hset : setPrev h p prev = some h') : ChangedAt h h' ps := by
  obtain ⟨node, -, rfl⟩ := Option.map_eq_some_iff.mp hset
  exact changedAt_update h _ hp

/-- Writing the link that enters from the left. -/
theorem setEntry_changed {h h' : LinkHeap α} {start start' prev next : Option ℕ} {ps : List ℕ}
    (hp : ∀ q, prev = some q → q ∈ ps)
    (hset : setEntry h start prev next = some (h', start')) : ChangedAt h h' ps := by
  cases prev with
  | none =>
    cases hset
    exact .refl _ _
  | some q =>
    obtain ⟨h₁, hnext, heq⟩ := Option.map_eq_some_iff.mp hset
    cases heq
    exact setNext_changed (hp q rfl) hnext

/-- Writing the link that enters from the right. -/
theorem setBack_changed {h h' : LinkHeap α} {next prev : Option ℕ} {ps : List ℕ}
    (hp : ∀ q, next = some q → q ∈ ps)
    (hset : setBack h next prev = some h') : ChangedAt h h' ps := by
  cases next with
  | none =>
    cases hset
    exact .refl _ _
  | some q => exact setPrev_changed (hp q rfl) hset

/-- A node appended to a list is its last one. -/
theorem LinkedList.append {h : LinkHeap α} {start : Option ℕ} {xs : List (ℕ × α)} {p : ℕ}
    {d : α} {fuel : ℕ}
    (hlist : LinkedList h start xs) (hfuel : xs.length ≤ fuel) (hfresh : p ∉ linkAddrs xs)
    (hp : h p = some ⟨d, none, none⟩) :
    ∃ h' start', appendLink fuel h start p = some (h', start') ∧ LinkedList h' start' (xs ++ [(p, d)]) ∧
      (∀ r, (h' r).isSome = (h r).isSome) ∧ ChangedAt h h' (linkAddrs (xs ++ [(p, d)])) := by
  rcases List.eq_nil_or_concat xs with rfl | ⟨ys, ⟨q, e⟩, rfl⟩
  · obtain rfl := hlist.start_eq
    exact ⟨h, some p, rfl, ⟨List.nodup_singleton p, some p, rfl, none, hp, rfl, rfl⟩,
      fun _ => rfl, .refl _ _⟩
  · rw [List.concat_eq_append] at *
    obtain ⟨last, hseg⟩ := hlist.linked
    obtain ⟨first, rfl⟩ : ∃ first, start = some first := by
      cases ys with
      | nil => exact ⟨q, hseg.1⟩
      | cons y ys => exact ⟨y.1, hseg.1⟩
    have hlast : lastLink h fuel first = some q :=
      lastLink_eq (by simp only [List.length_append, List.length_singleton] at hfuel; omega) hseg
    obtain ⟨h₁, h₂, hnext, hprev, hlinked, hsome⟩ := hlist.concat hfresh hp
    refine ⟨h₂, some first, ?_, hlinked, hsome, ?_⟩
    · simp only [appendLink, hlast, hnext, hprev, Option.bind_some, Option.map_some]
    · exact (setNext_changed (by simp) hnext).trans (setPrev_changed (by simp) hprev)

/-- A node that is linked in before another one is in front of it in the list. -/
theorem LinkedList.insert {h : LinkHeap α} {start : Option ℕ} {xs ys : List (ℕ × α)} {p q : ℕ} {d e : α}
    (hlist : LinkedList h start (xs ++ (q, e) :: ys)) (hfresh : p ∉ linkAddrs (xs ++ (q, e) :: ys))
    (hp : h p = some ⟨d, none, none⟩) :
    ∃ h' start', insertLink h start p q = some (h', start') ∧
      LinkedList h' start' (xs ++ (p, d) :: (q, e) :: ys) ∧
      (∀ r, (h' r).isSome = (h r).isSome) ∧
        ChangedAt h h' (linkAddrs (xs ++ (p, d) :: (q, e) :: ys)) := by
  obtain ⟨last, hseg⟩ := hlist.linked
  obtain ⟨mid, entry, hxs, rfl, next, hq, hys⟩ := (linkSeg_append ..).mp hseg
  obtain ⟨hqxs, hqys⟩ := hlist.disjoint
  have hnodup := hlist.nodup
  have hxsNodup : (xs.map Prod.fst).Nodup := (List.nodup_append.mp (List.map_append ▸ hnodup)).1
  rw [linkAddrs_append, linkAddrs_cons, List.mem_append, List.mem_cons, not_or, not_or] at hfresh
  obtain ⟨hpxs, hpq, hpys⟩ := hfresh
  have hdisjoint : ∀ r ∈ linkAddrs ys, r ∉ linkAddrs xs := by
    rw [List.map_append, List.map_cons, List.nodup_append] at hnodup
    exact fun r hr hmem => hnodup.2.2 r hmem r (List.mem_cons_of_mem _ hr) rfl
  -- the left side is led to the new node
  obtain ⟨h₂, start', hentry, hleft, hsome₂, hsame₂⟩ :=
    linkSeg_bypass_left (some p) hxsNodup (linkSeg_update p (some ⟨d, none, mid⟩) hpxs hxs)
  have hq₂ : h₂ q = some ⟨e, next, mid⟩ := by
    rw [hsame₂ q hqxs, Function.update_of_ne (Ne.symm hpq), hq]
  have hp₃ : Function.update h₂ q (some ⟨e, next, some p⟩) p = some ⟨d, none, mid⟩ := by
    rw [Function.update_of_ne hpq, hsame₂ p hpxs, Function.update_self]
  refine ⟨Function.update (Function.update h₂ q (some ⟨e, next, some p⟩)) p (some ⟨d, some q, mid⟩),
    start', ?_, ⟨?_, last, ?_⟩,
    fun r => ?_, ?_⟩
  · simp only [insertLink, hq, setPrev_eq mid hp, hentry, setPrev_eq (some p) hq₂,
      setNext_eq (some q) hp₃, Option.bind_some,
      Option.map_some]
  · rw [List.map_append, List.map_cons, List.nodup_append, List.nodup_cons]
    rw [List.map_append, List.nodup_append] at hnodup
    refine ⟨hxsNodup, ⟨?_, hnodup.2.1⟩, ?_⟩
    · exact fun hmem => (List.mem_cons.mp hmem).elim hpq hpys
    · rintro r hr s hs rfl
      rcases List.mem_cons.mp hs with rfl | hs
      · exact hpxs hr
      · exact hnodup.2.2 r hr r hs rfl
  · rw [linkSeg_append]
    refine ⟨mid, some p, ?_, rfl, some q, Function.update_self .., rfl, next, ?_, ?_⟩
    · exact linkSeg_update p _ hpxs (linkSeg_update q _ hqxs hleft)
    · rw [Function.update_of_ne (Ne.symm hpq), Function.update_self]
    · refine linkSeg_update p _ hpys (linkSeg_update q _ hqys (linkSeg_congr (fun r hr => ?_) hys))
      rw [hsame₂ r (hdisjoint r hr), Function.update_of_ne fun heq : r = p => hpys (heq ▸ hr)]
  · rw [isSome_update _ (by rw [hp₃]; rfl), isSome_update _ (by rw [hq₂]; rfl), hsome₂,
      isSome_update _ (by rw [hp]; rfl)]
  · intro r hr
    rw [linkAddrs_append, linkAddrs_cons, linkAddrs_cons, List.mem_append, List.mem_cons,
      List.mem_cons, not_or, not_or,
      not_or] at hr
    obtain ⟨hrxs, hrp, hrq, -⟩ := hr
    rw [Function.update_of_ne hrp, Function.update_of_ne hrq, hsame₂ r hrxs, Function.update_of_ne hrp]

/-- A node that is taken out is no longer in its list. -/
theorem LinkedList.unlink {h : LinkHeap α} {start : Option ℕ} {xs ys : List (ℕ × α)} {p : ℕ} {d : α}
    (hlist : LinkedList h start (xs ++ (p, d) :: ys)) :
    ∃ h' start', unlinkNode h start p = some (h', start') ∧ LinkedList h' start' (xs ++ ys) ∧
      (∀ r, (h' r).isSome = true ↔ r ≠ p ∧ (h r).isSome = true) ∧
        ChangedAt h h' (linkAddrs (xs ++ (p, d) :: ys)) := by
  obtain ⟨node, h₁, h₂, start', hnode, hentry, hback, hlinked, hsome⟩ := hlist.remove
  have hneighbours := hlist.node
  rw [hnode] at hneighbours
  obtain rfl := Option.some.inj hneighbours
  refine ⟨Function.update h₂ p none, start', ?_, hlinked, fun r => ?_, ?_⟩
  · simp only [unlinkNode, hnode, hentry, hback, Option.bind_some, Option.map_some]
  · by_cases hr : r = p
    · subst hr
      simp
    · rw [Function.update_of_ne hr, hsome]
      simp [hr]
  · have hleft : ChangedAt h h₁ (linkAddrs (xs ++ (p, d) :: ys)) := by
      refine setEntry_changed (fun q hq => ?_) hentry
      rw [linkAddrs_append]
      exact List.mem_append_left _ (List.mem_of_getLast? hq)
    have hright : ChangedAt h₁ h₂ (linkAddrs (xs ++ (p, d) :: ys)) := by
      refine setBack_changed (fun q hq => ?_) hback
      rw [linkAddrs_append, linkAddrs_cons]
      exact List.mem_append_right _ (List.mem_cons_of_mem _ (List.mem_of_head? hq))
    exact (hleft.trans hright).trans (changedAt_update h₂ none (by simp))

/-- A node with another payload is still in its list. -/
theorem LinkedList.setData {h : LinkHeap α} {start : Option ℕ} {xs ys : List (ℕ × α)} {p : ℕ}
    {d : α} (d' : α)
    (hlist : LinkedList h start (xs ++ (p, d) :: ys)) :
    ∃ h', Library.setData h p d' = some h' ∧ LinkedList h' start (xs ++ (p, d') :: ys) ∧
      (∀ r, (h' r).isSome = (h r).isSome) ∧ ChangedAt h h' [p] := by
  have hp := hlist.node
  obtain ⟨hxs, hys⟩ := hlist.disjoint
  obtain ⟨hnodup, last, hseg⟩ := hlist
  obtain ⟨mid, entry, hleft, rfl, next, hnode, hright⟩ := (linkSeg_append ..).mp hseg
  have hprev : mid = (linkAddrs xs).getLast? := (linkSeg_last hleft).trans Option.or_none
  have hnext : next = (linkAddrs ys).head? := linkSeg_start hright
  refine ⟨_, by rw [Library.setData, hp]; rfl, ⟨?_, last, ?_⟩,
    fun r => isSome_update _ (by rw [hp]; rfl) r, ?_⟩
  · simpa only [List.map_append, List.map_cons] using hnodup
  · rw [linkSeg_append]
    refine ⟨mid, some p, linkSeg_update p _ hxs hleft, rfl, next, ?_, linkSeg_update p _ hys hright⟩
    simp only [Function.update_self, hprev, hnext]
  · exact changedAt_update h _ (List.mem_singleton_self p)

/-- All nodes of a list are freed, and no others. -/
theorem freeLinks_eq {h : LinkHeap α} {prev start last : Option ℕ} {xs : List (ℕ × α)} {fuel : ℕ}
    (hfuel : xs.length < fuel)
    (hnodup : (linkAddrs xs).Nodup) (hseg : LinkSeg h prev start xs last none) :
    ∃ h', freeLinks h fuel start = some h' ∧
      (∀ r, (h' r).isSome = true ↔ r ∉ linkAddrs xs ∧ (h r).isSome = true) ∧
      ChangedAt h h' (linkAddrs xs) := by
  induction xs generalizing h prev start fuel with
  | nil =>
    obtain ⟨fuel, rfl⟩ : ∃ k, fuel = k + 1 := ⟨fuel - 1, by omega⟩
    obtain ⟨-, rfl⟩ := hseg
    exact ⟨h, rfl, fun r => by simp, .refl _ _⟩
  | cons x xs ih =>
    obtain ⟨p, d⟩ := x
    obtain ⟨fuel, rfl⟩ : ∃ k, fuel = k + 1 :=
      ⟨fuel - 1, by simp only [List.length_cons] at hfuel; omega⟩
    obtain ⟨rfl, next, hnode, hrest⟩ := hseg
    rw [linkAddrs_cons, List.nodup_cons] at hnodup
    obtain ⟨h', hfree, hsome, hat⟩ :=
      ih (by simpa using hfuel) hnodup.2 (linkSeg_update p none hnodup.1 hrest)
    refine ⟨h', by simp only [freeLinks, hnode, hfree], fun r => ?_, ?_⟩
    · rw [hsome]
      by_cases hr : r = p
      · simp [hr]
      · simp [hr]
    · exact (changedAt_update h none (by simp)).trans (hat.mono fun r hr => List.mem_cons_of_mem _ hr)

end DasEdge.Library
