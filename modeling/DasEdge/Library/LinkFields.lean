import DasEdge.Library.LinkedWalk

/-!
# The links of a heap as functions

The two links and the payload of the nodes of a heap are three functions of the address, and a write
to a link changes one of them at one address. A path follows one link from an address on. This
separates what happens to the two links when they no longer agree.
-/

namespace DasEdge.Library

variable {α : Type*}

/-- The link `next` of a node. -/
def nextOf (h : LinkHeap α) (p : ℕ) : Option ℕ := (h p).bind (·.next)

/-- The link `prev` of a node. -/
def prevOf (h : LinkHeap α) (p : ℕ) : Option ℕ := (h p).bind (·.prev)

/-- The payload of a node. -/
def dataOf (h : LinkHeap α) (p : ℕ) : Option α := (h p).map (·.data)

/-- An allocated node has these links. -/
theorem exists_node {h : LinkHeap α} {p : ℕ} (hp : (dataOf h p).isSome) :
    ∃ node, h p = some node ∧ node.next = nextOf h p ∧ node.prev = prevOf h p := by
  obtain ⟨node, hnode⟩ := Option.isSome_iff_exists.mp (Option.isSome_map ▸ hp)
  refine ⟨node, hnode, ?_, ?_⟩
  · rw [nextOf, hnode]
    rfl
  · rw [prevOf, hnode]
    rfl

/-- Writing `next` changes that link only. -/
theorem setNext_fields {h : LinkHeap α} {p : ℕ} (hp : (dataOf h p).isSome) (next : Option ℕ) :
    ∃ h', setNext h p next = some h' ∧ dataOf h' = dataOf h ∧
      nextOf h' = Function.update (nextOf h) p next ∧
      prevOf h' = prevOf h := by
  obtain ⟨⟨d, before, behind⟩, hnode⟩ := Option.isSome_iff_exists.mp (Option.isSome_map ▸ hp)
  refine ⟨_, setNext_eq next hnode, ?_, ?_, ?_⟩ <;> funext q <;> by_cases hq : q = p
  · subst hq
    simp [dataOf, hnode]
  · simp [dataOf, hq]
  · subst hq
    simp [nextOf]
  · simp [nextOf, hq]
  · subst hq
    simp [prevOf, hnode]
  · simp [prevOf, hq]

/-- Writing `prev` changes that link only. -/
theorem setPrev_fields {h : LinkHeap α} {p : ℕ} (hp : (dataOf h p).isSome) (prev : Option ℕ) :
    ∃ h', setPrev h p prev = some h' ∧ dataOf h' = dataOf h ∧ nextOf h' = nextOf h ∧
      prevOf h' = Function.update (prevOf h) p prev := by
  obtain ⟨⟨d, before, behind⟩, hnode⟩ := Option.isSome_iff_exists.mp (Option.isSome_map ▸ hp)
  refine ⟨_, setPrev_eq prev hnode, ?_, ?_, ?_⟩ <;> funext q <;> by_cases hq : q = p
  · subst hq
    simp [dataOf, hnode]
  · simp [dataOf, hq]
  · subst hq
    simp [nextOf, hnode]
  · simp [nextOf, hq]
  · subst hq
    simp [prevOf]
  · simp [prevOf, hq]

/-- A function with another value at an address, if there is one. -/
def updateAt (f : ℕ → Option ℕ) (p value : Option ℕ) : ℕ → Option ℕ :=
  match p with
  | some p => Function.update f p value
  | none => f

/-- Elsewhere it is the same. -/
theorem updateAt_of_ne {f : ℕ → Option ℕ} {p : Option ℕ} {r : ℕ} (h : p ≠ some r) (value : Option ℕ) :
    updateAt f p value r = f r := by
  cases p with
  | none => rfl
  | some p => exact Function.update_of_ne (fun heq : r = p => h (heq ▸ rfl)) _ _

/-- Writing the link `prev` of a right neighbour, if there is one. -/
theorem setBack_fields {h : LinkHeap α} {p : Option ℕ} (hp : ∀ q, p = some q → (dataOf h q).isSome)
    (prev : Option ℕ) :
    ∃ h', setBack h p prev = some h' ∧ dataOf h' = dataOf h ∧ nextOf h' = nextOf h ∧
      prevOf h' = updateAt (prevOf h) p prev := by
  cases p with
  | none => exact ⟨h, rfl, rfl, rfl, rfl⟩
  | some q => exact setPrev_fields (hp q rfl) prev

/-- The addresses `ps` follow each other from `start` on, and `stop` follows the last of them. -/
def LinkPath (next : ℕ → Option ℕ) : Option ℕ → List ℕ → Option ℕ → Prop
  | start, [], stop => start = stop
  | start, p :: rest, stop => start = some p ∧ LinkPath next (next p) rest stop

/-- Every node has the one before it as its `prev`. -/
def BackPath (back : ℕ → Option ℕ) : Option ℕ → List ℕ → Prop
  | _, [] => True
  | last, p :: ps => back p = last ∧ BackPath back (some p) ps

variable {next next' back back' : ℕ → Option ℕ} {start stop last : Option ℕ}

/-- Paths compose. -/
theorem linkPath_append (xs ys : List ℕ) :
    LinkPath next start (xs ++ ys) stop ↔ ∃ mid, LinkPath next start xs mid ∧
      LinkPath next mid ys stop := by
  induction xs generalizing start with
  | nil =>
    constructor
    · exact fun h => ⟨start, rfl, h⟩
    · rintro ⟨mid, rfl, h⟩
      exact h
  | cons x xs ih =>
    rw [List.cons_append, LinkPath, ih]
    constructor
    · rintro ⟨hstart, mid, hxs, hys⟩
      exact ⟨mid, ⟨hstart, hxs⟩, hys⟩
    · rintro ⟨mid, ⟨hstart, hxs⟩, hys⟩
      exact ⟨hstart, mid, hxs, hys⟩

/-- A path depends on the links of its own addresses. -/
theorem LinkPath.congr {xs : List ℕ} (h : LinkPath next start xs stop)
    (hsame : ∀ p ∈ xs, next' p = next p) :
    LinkPath next' start xs stop := by
  induction xs generalizing start with
  | nil => exact h
  | cons x xs ih =>
    obtain ⟨hstart, hrest⟩ := h
    obtain ⟨hx, hxs⟩ := List.forall_mem_cons.mp hsame
    exact ⟨hstart, hx ▸ ih hrest hxs⟩

/-- A path starts at its first address. -/
theorem LinkPath.start_eq {xs : List ℕ} (h : LinkPath next start xs stop) :
    start = xs.head?.or stop := by
  cases xs with
  | nil => exact h
  | cons x xs => exact h.1

/-- The last address leads to where a path stops. -/
theorem linkPath_concat (xs : List ℕ) (p : ℕ) :
    LinkPath next start (xs ++ [p]) stop ↔ LinkPath next start xs (some p) ∧ next p = stop := by
  rw [linkPath_append]
  constructor
  · rintro ⟨mid, hxs, rfl, hstop⟩
    exact ⟨hxs, hstop⟩
  · rintro ⟨hxs, hstop⟩
    exact ⟨some p, hxs, rfl, hstop⟩

/-- A path that ends in null is the only one from its start. -/
theorem LinkPath.unique {xs ys : List ℕ} (hxs : LinkPath next start xs none)
    (hys : LinkPath next start ys none) : xs = ys := by
  induction xs generalizing start ys with
  | nil =>
    cases ys with
    | nil => rfl
    | cons y ys => cases hxs.symm.trans hys.1
  | cons x xs ih =>
    cases ys with
    | nil => cases hxs.1.symm.trans hys
    | cons y ys =>
      obtain rfl := Option.some.inj (hxs.1.symm.trans hys.1)
      rw [ih hxs.2 hys.2]

/-- Such a path meets no address twice. -/
theorem LinkPath.nodup {xs : List ℕ} (h : LinkPath next start xs none) : xs.Nodup := by
  induction xs generalizing start with
  | nil => exact List.nodup_nil
  | cons x xs ih =>
    refine List.nodup_cons.mpr ⟨fun hx => ?_, ih h.2⟩
    obtain ⟨before, behind, rfl⟩ := List.append_of_mem hx
    obtain ⟨mid, -, hagain⟩ := (linkPath_append before (x :: behind)).mp h.2
    have hsame := h.unique (h.1.trans hagain.1.symm ▸ hagain)
    have hlen := congrArg List.length hsame
    simp only [List.length_cons, List.length_append] at hlen
    omega

/-- Such nodes depend on their own `prev`. -/
theorem BackPath.congr {xs : List ℕ} (h : BackPath back last xs)
    (hsame : ∀ p ∈ xs, back' p = back p) : BackPath back' last xs := by
  induction xs generalizing last with
  | nil => trivial
  | cons p xs ih =>
    obtain ⟨hp, hsame⟩ := List.forall_mem_cons.mp hsame
    exact ⟨hp.trans h.1, ih h.2 hsame⟩

/-- In a list without repetitions no node has itself or a later one as its `prev` then. -/
theorem BackPath.earlier {xs : List ℕ} (h : BackPath back last xs) (hnodup : xs.Nodup)
    (hlast : ∀ q, last = some q → q ∉ xs) :
    (∀ p ∈ xs, back p ≠ some p) ∧ xs.Pairwise (fun p q => back p ≠ some q) ∧
      ∀ p ∈ xs, ∀ q, back p = some q → last = some q ∨ q ∈ xs := by
  induction xs generalizing last with
  | nil => simp
  | cons x xs ih =>
    obtain ⟨hx, hrest⟩ := h
    obtain ⟨hfresh, hnodup⟩ := List.nodup_cons.mp hnodup
    obtain ⟨hself, hlater, hmem⟩ := ih hrest hnodup fun q hq => Option.some.inj hq ▸ hfresh
    have hback {q : ℕ} (hq : q ∈ x :: xs) : back x ≠ some q := fun heq => hlast q (hx.symm.trans heq) hq
    refine ⟨List.forall_mem_cons.mpr ⟨hback List.mem_cons_self, hself⟩,
      List.pairwise_cons.mpr ⟨fun q hq => hback (List.mem_cons_of_mem _ hq), hlater⟩,
        List.forall_mem_cons.mpr ⟨?_, ?_⟩⟩
    · exact fun q hq => .inl (hx.symm.trans hq)
    · intro p hp q hq
      rcases hmem p hp q hq with heq | hq
      · exact .inr (Option.some.inj heq ▸ List.mem_cons_self)
      · exact .inr (List.mem_cons_of_mem _ hq)

/-- A segment as its links. -/
theorem linkSeg_fields {h : LinkHeap α} {prev : Option ℕ} {xs : List (ℕ × α)}
    (hseg : LinkSeg h prev start xs last stop) :
    LinkPath (nextOf h) start (xs.map Prod.fst) stop ∧ BackPath (prevOf h) prev (xs.map Prod.fst) ∧
      ∀ x ∈ xs, dataOf h x.1 = some x.2 := by
  induction xs generalizing prev start with
  | nil => exact ⟨hseg.2, trivial, by simp⟩
  | cons x xs ih =>
    obtain ⟨p, d⟩ := x
    obtain ⟨hstart, next, hp, hrest⟩ := hseg
    obtain ⟨hpath, hback, hdata⟩ := ih hrest
    have hnext : nextOf h p = next := by rw [nextOf, hp]; rfl
    have hprev : prevOf h p = prev := by rw [prevOf, hp]; rfl
    have hdataOf : dataOf h p = some d := by rw [dataOf, hp]; rfl
    exact ⟨⟨hstart, hnext ▸ hpath⟩, ⟨hprev, hback⟩, List.forall_mem_cons.mpr ⟨hdataOf, hdata⟩⟩

end DasEdge.Library
