import Mathlib.Data.List.Nodup
import Mathlib.Logic.Function.Basic

/-!
# Doubly linked lists in a heap of nodes

Nodes are found by address and carry a payload and the two links; a null link is `none`. A
segment relates a run of the heap to the list of its addresses and payloads, with the links that
enter and leave it at both ends. A list is a segment with null links outside.
-/

namespace DasEdge.Library

variable {α : Type*}

/-- A payload with its links. -/
structure LinkNode (α : Type*) where
  data : α
  next : Option ℕ
  prev : Option ℕ
  deriving DecidableEq

/-- Allocated nodes by address. -/
abbrev LinkHeap (α : Type*) := ℕ → Option (LinkNode α)

/-- Writes the link `next` of an allocated node. -/
def setNext (h : LinkHeap α) (p : ℕ) (next : Option ℕ) : Option (LinkHeap α) :=
  (h p).map fun node => Function.update h p (some { node with next := next })

/-- Writes the link `prev` of an allocated node. -/
def setPrev (h : LinkHeap α) (p : ℕ) (prev : Option ℕ) : Option (LinkHeap α) :=
  (h p).map fun node => Function.update h p (some { node with prev := prev })

/-- Writes the link that enters from the left: `next` of the left neighbour, or else the start. -/
def setEntry (h : LinkHeap α) (start prev next : Option ℕ) : Option (LinkHeap α × Option ℕ) :=
  match prev with
  | some prev => (setNext h prev next).map fun h' => (h', start)
  | none => some (h, next)

/-- Writes the link that enters from the right, if there is a right neighbour. -/
def setBack (h : LinkHeap α) (next prev : Option ℕ) : Option (LinkHeap α) :=
  match next with
  | some next => setPrev h next prev
  | none => some h

/-- The nodes `xs` lie linked in the heap: `prev` and `start` enter the segment from its left, `last`
and `stop` leave it on its right. -/
def LinkSeg (h : LinkHeap α) : Option ℕ → Option ℕ → List (ℕ × α) → Option ℕ → Option ℕ → Prop
  | prev, start, [], last, stop => prev = last ∧ start = stop
  | prev, start, (p, d) :: rest, last, stop =>
    start = some p ∧ ∃ next, h p = some ⟨d, next, prev⟩ ∧ LinkSeg h (some p) next rest last stop

/-- The heap holds the list `xs` from `start` on: distinct nodes, linked both ways, null outside. -/
structure LinkedList (h : LinkHeap α) (start : Option ℕ) (xs : List (ℕ × α)) : Prop where
  nodup : (xs.map Prod.fst).Nodup
  linked : ∃ last, LinkSeg h none start xs last none

/-- The payloads met by following `next` for at most `fuel` nodes. -/
def linkedData (h : LinkHeap α) : ℕ → Option ℕ → List α
  | fuel + 1, some p =>
    match h p with
    | some node => node.data :: linkedData h fuel node.next
    | none => []
  | _, _ => []

/-- Writing `next` of a node that is allocated. -/
theorem setNext_eq {h : LinkHeap α} {p : ℕ} {d : α} {next prev : Option ℕ} (next' : Option ℕ)
    (hp : h p = some ⟨d, next, prev⟩) :
    setNext h p next' = some (Function.update h p (some ⟨d, next', prev⟩)) := by
  rw [setNext, hp]
  rfl

/-- Writing `prev` of a node that is allocated. -/
theorem setPrev_eq {h : LinkHeap α} {p : ℕ} {d : α} {next prev : Option ℕ} (prev' : Option ℕ)
    (hp : h p = some ⟨d, next, prev⟩) :
    setPrev h p prev' = some (Function.update h p (some ⟨d, next, prev'⟩)) := by
  rw [setPrev, hp]
  rfl

/-- Writing to an allocated node allocates nothing and frees nothing. -/
theorem isSome_update {h : LinkHeap α} {p : ℕ} (node : LinkNode α) (hp : (h p).isSome) (r : ℕ) :
    (Function.update h p (some node) r).isSome = (h r).isSome := by
  by_cases hr : r = p
  · subst hr
    rw [Function.update_self, hp]
    rfl
  · rw [Function.update_of_ne hr]

/-- Segments compose at the links between them. -/
theorem linkSeg_append (h : LinkHeap α) (prev start : Option ℕ) (xs ys : List (ℕ × α))
    (last stop : Option ℕ) :
    LinkSeg h prev start (xs ++ ys) last stop ↔
      ∃ mid entry, LinkSeg h prev start xs mid entry ∧ LinkSeg h mid entry ys last stop := by
  induction xs generalizing prev start with
  | nil =>
    constructor
    · intro hy
      exact ⟨prev, start, ⟨rfl, rfl⟩, hy⟩
    · rintro ⟨mid, entry, ⟨rfl, rfl⟩, hy⟩
      exact hy
  | cons x xs ih =>
    obtain ⟨p, d⟩ := x
    simp only [List.cons_append, LinkSeg, ih]
    constructor
    · rintro ⟨hstart, next, hp, mid, entry, hx, hy⟩
      exact ⟨mid, entry, ⟨hstart, next, hp, hx⟩, hy⟩
    · rintro ⟨mid, entry, ⟨hstart, next, hp, hx⟩, hy⟩
      exact ⟨hstart, next, hp, mid, entry, hx, hy⟩

/-- A segment only depends on its own nodes. -/
theorem linkSeg_congr {h h' : LinkHeap α} {prev start : Option ℕ} {xs : List (ℕ × α)}
    {last stop : Option ℕ}
    (hsame : ∀ p ∈ xs.map Prod.fst, h' p = h p) (hseg : LinkSeg h prev start xs last stop) :
    LinkSeg h' prev start xs last stop := by
  induction xs generalizing prev start with
  | nil => exact hseg
  | cons x xs ih =>
    obtain ⟨p, d⟩ := x
    obtain ⟨hstart, next, hp, hrest⟩ := hseg
    refine ⟨hstart, next, ?_, ih (fun q hq => hsame q (List.mem_cons_of_mem _ hq)) hrest⟩
    rw [hsame p List.mem_cons_self, hp]

/-- A write outside a segment leaves it in place. -/
theorem linkSeg_update {h : LinkHeap α} {prev start : Option ℕ} {xs : List (ℕ × α)}
    {last stop : Option ℕ}
    (p : ℕ) (node : Option (LinkNode α)) (hp : p ∉ xs.map Prod.fst)
    (hseg : LinkSeg h prev start xs last stop) :
    LinkSeg (Function.update h p node) prev start xs last stop := by
  refine linkSeg_congr (fun q hq => Function.update_of_ne ?_ _ _) hseg
  rintro rfl
  exact hp hq

/-- The links that leave a non-empty segment on its right belong to its last node. -/
theorem linkSeg_concat {h : LinkHeap α} {prev start : Option ℕ} {xs : List (ℕ × α)} {q : ℕ} {e : α}
    {last stop : Option ℕ} (hseg : LinkSeg h prev start (xs ++ [(q, e)]) last stop) :
    last = some q ∧ ∃ mid, h q = some ⟨e, stop, mid⟩ ∧ LinkSeg h prev start xs mid (some q) := by
  obtain ⟨mid, entry, hx, hentry, next, hq, hlast, hstop⟩ := (linkSeg_append ..).mp hseg
  subst hentry hlast hstop
  exact ⟨rfl, mid, hq, hx⟩

/-- Redirecting the last node's `next` redirects where the segment stops. -/
theorem linkSeg_setNext_last {h : LinkHeap α} {prev start : Option ℕ} {xs : List (ℕ × α)}
    {q : ℕ} {e : α}
    {last stop : Option ℕ} (stop' : Option ℕ) (hnodup : ((xs ++ [(q, e)]).map Prod.fst).Nodup)
    (hseg : LinkSeg h prev start (xs ++ [(q, e)]) last stop) :
    ∃ node, (h q).isSome ∧ setNext h q stop' = some (Function.update h q (some node)) ∧
      LinkSeg (Function.update h q (some node)) prev start (xs ++ [(q, e)]) last stop' := by
  obtain ⟨rfl, mid, hq, hx⟩ := linkSeg_concat hseg
  have hfresh : q ∉ xs.map Prod.fst := by
    rw [List.map_append, List.nodup_append] at hnodup
    intro hmem
    exact hnodup.2.2 q hmem q (by simp) rfl
  refine ⟨⟨e, stop', mid⟩, by rw [hq]; rfl, setNext_eq _ hq, ?_⟩
  rw [linkSeg_append]
  exact ⟨mid, some q, linkSeg_update q _ hfresh hx, rfl, stop', Function.update_self .., rfl, rfl⟩

/-- Redirecting the first node's `prev` redirects where the segment is entered from. -/
theorem linkSeg_setPrev_head {h : LinkHeap α} {prev start : Option ℕ} {r : ℕ} {e : α}
    {xs : List (ℕ × α)}
    {last stop : Option ℕ} (prev' : Option ℕ) (hnodup : (((r, e) :: xs).map Prod.fst).Nodup)
    (hseg : LinkSeg h prev start ((r, e) :: xs) last stop) :
    ∃ node, (h r).isSome ∧ setPrev h r prev' = some (Function.update h r (some node)) ∧
      LinkSeg (Function.update h r (some node)) prev' start ((r, e) :: xs) last stop := by
  obtain ⟨hstart, next, hr, hrest⟩ := hseg
  have hfresh : r ∉ xs.map Prod.fst := (List.nodup_cons.mp hnodup).1
  refine ⟨⟨e, next, prev'⟩, by rw [hr]; rfl, setPrev_eq _ hr, hstart, next, Function.update_self .., ?_⟩
  exact linkSeg_update r _ hfresh hrest

/-- Following `next` through a segment that ends in null meets its payloads in order. -/
theorem linkSeg_linkedData {h : LinkHeap α} {prev start : Option ℕ} {xs : List (ℕ × α)}
    {last : Option ℕ}
    (fuel : ℕ) (hfuel : xs.length ≤ fuel) (hseg : LinkSeg h prev start xs last none) :
    linkedData h fuel start = xs.map Prod.snd := by
  induction xs generalizing prev start fuel with
  | nil =>
    obtain ⟨-, rfl⟩ := hseg
    cases fuel <;> rfl
  | cons x xs ih =>
    obtain ⟨p, d⟩ := x
    obtain ⟨rfl, next, hp, hrest⟩ := hseg
    obtain ⟨fuel, rfl⟩ : ∃ k, fuel = k + 1 :=
      ⟨fuel - 1, by simp only [List.length_cons] at hfuel; omega⟩
    rw [linkedData, hp]
    simp only [List.map_cons, ih fuel (by simpa using hfuel) hrest]

/-- A new node at the end of a list is linked in by the two writes that meet there. -/
theorem LinkedList.concat {h : LinkHeap α} {start : Option ℕ} {xs : List (ℕ × α)} {q : ℕ}
    {e : α} {p : ℕ}
    {d : α} (hlist : LinkedList h start (xs ++ [(q, e)])) (hfresh : p ∉ (xs ++ [(q, e)]).map Prod.fst)
    (hp : h p = some ⟨d, none, none⟩) :
    ∃ h₁ h₂, setNext h q (some p) = some h₁ ∧ setPrev h₁ p (some q) = some h₂ ∧
      LinkedList h₂ start (xs ++ [(q, e)] ++ [(p, d)]) ∧ ∀ r, (h₂ r).isSome = (h r).isSome := by
  obtain ⟨last, hseg⟩ := hlist.linked
  obtain ⟨node, hq, hnext, hseg₁⟩ := linkSeg_setNext_last (some p) hlist.nodup hseg
  have hne : p ≠ q := by
    rintro rfl
    simp at hfresh
  have hp₁ : Function.update h q (some node) p = some ⟨d, none, none⟩ := by
    rw [Function.update_of_ne hne, hp]
  refine ⟨_, _, hnext, setPrev_eq _ hp₁, ⟨?_, some p, ?_⟩, ?_⟩
  · rw [List.map_append, List.nodup_append]
    refine ⟨hlist.nodup, List.nodup_singleton _, ?_⟩
    rintro r hr s hs rfl
    obtain rfl : r = p := by simpa using hs
    exact hfresh hr
  · rw [linkSeg_append]
    refine ⟨last, some p, linkSeg_update p _ hfresh hseg₁, rfl, none, ?_, rfl, rfl⟩
    rw [Function.update_self, (linkSeg_concat hseg).1]
  · intro r
    rw [isSome_update _ (by rw [hp₁]; rfl), isSome_update _ hq]

/-- The left neighbour of a node, or the entry of the list, is redirected behind the node. -/
theorem linkSeg_bypass_left {h : LinkHeap α} {start : Option ℕ} {xs : List (ℕ × α)}
    {mid stop : Option ℕ}
    (stop' : Option ℕ) (hnodup : (xs.map Prod.fst).Nodup) (hseg : LinkSeg h none start xs mid stop) :
    ∃ h' start', setEntry h start mid stop' = some (h', start') ∧
      LinkSeg h' none start' xs mid stop' ∧ (∀ r, (h' r).isSome = (h r).isSome) ∧
      ∀ r, r ∉ xs.map Prod.fst → h' r = h r := by
  rcases List.eq_nil_or_concat xs with rfl | ⟨ys, ⟨q, e⟩, rfl⟩
  · obtain ⟨rfl, -⟩ := hseg
    exact ⟨h, stop', rfl, ⟨rfl, rfl⟩, fun _ => rfl, fun _ _ => rfl⟩
  · rw [List.concat_eq_append] at hseg hnodup ⊢
    obtain ⟨node, hq, hnext, hseg'⟩ := linkSeg_setNext_last stop' hnodup hseg
    obtain ⟨rfl, -⟩ := linkSeg_concat hseg
    refine ⟨_, start, by simp only [setEntry, hnext, Option.map_some], hseg', isSome_update _ hq, ?_⟩
    intro r hr
    exact Function.update_of_ne (fun heq => hr (by simp [heq])) _ _

/-- The right neighbour of a node, if there is one, is redirected before the node. -/
theorem linkSeg_bypass_right {h : LinkHeap α} {prev start : Option ℕ} {xs : List (ℕ × α)}
    {last : Option ℕ}
    (prev' : Option ℕ) (hnodup : (xs.map Prod.fst).Nodup) (hseg : LinkSeg h prev start xs last none) :
    ∃ h' last', setBack h start prev' = some h' ∧
      LinkSeg h' prev' start xs last' none ∧ (∀ r, (h' r).isSome = (h r).isSome) ∧
      ∀ r, r ∉ xs.map Prod.fst → h' r = h r := by
  cases xs with
  | nil =>
    obtain ⟨-, rfl⟩ := hseg
    exact ⟨h, prev', rfl, ⟨rfl, rfl⟩, fun _ => rfl, fun _ _ => rfl⟩
  | cons x xs =>
    obtain ⟨r, e⟩ := x
    obtain ⟨node, hr, hprev, hseg'⟩ := linkSeg_setPrev_head prev' hnodup hseg
    obtain ⟨rfl, -⟩ := hseg
    refine ⟨_, last, by simp only [setBack, hprev], hseg', isSome_update _ hr, ?_⟩
    intro s hs
    exact Function.update_of_ne (fun heq => hs (by simp [heq])) _ _

/-- Bypassing a node on both sides and freeing it takes it out of the list. -/
theorem LinkedList.remove {h : LinkHeap α} {start : Option ℕ} {xs ys : List (ℕ × α)} {p : ℕ} {d : α}
    (hlist : LinkedList h start (xs ++ (p, d) :: ys)) :
    ∃ node h₁ h₂ start', h p = some node ∧
      setEntry h start node.prev node.next = some (h₁, start') ∧
      setBack h₁ node.next node.prev = some h₂ ∧
      LinkedList (Function.update h₂ p none) start' (xs ++ ys) ∧ ∀ r, (h₂ r).isSome = (h r).isSome := by
  obtain ⟨last, hseg⟩ := hlist.linked
  obtain ⟨mid, entry, hxs, rfl, next, hp, hys⟩ := (linkSeg_append ..).mp hseg
  have hnodup := hlist.nodup
  rw [List.map_append, List.map_cons, List.nodup_append, List.nodup_cons] at hnodup
  obtain ⟨hxsNodup, ⟨hpys, hysNodup⟩, hdisjoint⟩ := hnodup
  have hpxs : p ∉ xs.map Prod.fst := fun hmem => hdisjoint p hmem p List.mem_cons_self rfl
  obtain ⟨h₁, start', hleft, hxs₁, hsome₁, hsame₁⟩ := linkSeg_bypass_left next hxsNodup hxs
  have hys₁ : LinkSeg h₁ (some p) next ys last none := by
    refine linkSeg_congr (fun r hr => hsame₁ r ?_) hys
    exact fun hmem => hdisjoint r hmem r (List.mem_cons_of_mem _ hr) rfl
  obtain ⟨h₂, last', hright, hys₂, hsome₂, hsame₂⟩ := linkSeg_bypass_right mid hysNodup hys₁
  have hxs₂ : LinkSeg h₂ none start' xs mid next := by
    refine linkSeg_congr (fun r hr => hsame₂ r ?_) hxs₁
    exact fun hmem => hdisjoint r hr r (List.mem_cons_of_mem _ hmem) rfl
  refine ⟨_, h₁, h₂, start', hp, hleft, hright, ⟨?_, last', ?_⟩, fun r => by rw [hsome₂, hsome₁]⟩
  · rw [List.map_append, List.nodup_append]
    exact ⟨hxsNodup, hysNodup, fun r hr s hs => hdisjoint r hr s (List.mem_cons_of_mem _ hs)⟩
  · rw [linkSeg_append]
    exact ⟨mid, next, linkSeg_update p none hpxs hxs₂, linkSeg_update p none hpys hys₂⟩

/-- Without the address of one of its nodes a list is what is before and behind it. -/
theorem filter_ne_middle {xs ys : List (ℕ × α)} {p : ℕ} {d : α}
    (hnodup : ((xs ++ (p, d) :: ys).map Prod.fst).Nodup) :
    (xs ++ (p, d) :: ys).filter (·.1 ≠ p) = xs ++ ys := by
  rw [List.map_append, List.map_cons, List.nodup_append, List.nodup_cons] at hnodup
  obtain ⟨-, ⟨hys, -⟩, hxs⟩ := hnodup
  have hkeep : ∀ zs : List (ℕ × α), p ∉ zs.map Prod.fst → zs.filter (·.1 ≠ p) = zs := by
    intro zs hzs
    rw [List.filter_eq_self]
    rintro ⟨q, e⟩ hq
    simp only [ne_eq, decide_not, Bool.not_eq_true', decide_eq_false_iff_not]
    rintro rfl
    exact hzs (List.mem_map_of_mem hq)
  rw [List.filter_append, List.filter_cons,
    hkeep xs fun hmem => hxs p hmem p List.mem_cons_self rfl, hkeep ys hys]
  simp

end DasEdge.Library
