import Mathlib.Data.List.Basic
import Mathlib.Order.Defs.Unbundled

/-!
# Computations on a state that may run out of fuel

A program with loops and recursion becomes a function of the fuel it may spend. The state is kept
also when the fuel is spent, so that what a run has done so far can be talked about whether or not it
ends.
-/

namespace DasEdge.Library

/-- A computation on a state; no result means that the fuel is spent. -/
def FuelRun (σ α : Type) := σ → Option α × σ

namespace FuelRun

variable {σ α β : Type}

/-- The computation that leaves the state alone. -/
def ret (a : α) : FuelRun σ α := fun s => (some a, s)

/-- One computation after the other. -/
def andThen (m : FuelRun σ α) (f : α → FuelRun σ β) : FuelRun σ β := fun s =>
  match m s with
  | (some a, t) => f a t
  | (none, t) => (none, t)

instance : Monad (FuelRun σ) where
  pure := ret
  bind := andThen

/-- The computation whose fuel is spent. -/
def outOfFuel : FuelRun σ α := fun s => (none, s)

/-- The state. -/
def read : FuelRun σ σ := fun s => (some s, s)

/-- A change of the state. -/
def update (f : σ → σ) : FuelRun σ Unit := fun s => (some (), f s)

/-- One of two computations, by a test of the state. -/
def branch (test : σ → Bool) (m m' : FuelRun σ α) : FuelRun σ α := fun s => if test s then m s else m' s

/-- A computation that is left out when the state passes a test. -/
def skipWhen (test : σ → Bool) (m : FuelRun σ Unit) : FuelRun σ Unit := branch test (ret ()) m

/-- Rounds of a loop; each one gives the loop's variable and whether to go on. -/
def rounds : ℕ → (α → FuelRun σ (α × Bool)) → α → FuelRun σ α
  | 0, _, _ => outOfFuel
  | fuel + 1, round, a => do
    let next ← round a
    if next.2 then rounds fuel round next.1 else ret next.1

/-- A computation in sequence with a pure one. -/
@[simp] theorem pure_apply (a : α) (s : σ) : (pure a : FuelRun σ α) s = (some a, s) := rfl

/-- What a sequence does. -/
theorem bind_apply (m : FuelRun σ α) (f : α → FuelRun σ β) (s : σ) :
    (m >>= f) s = match m s with
      | (some a, t) => f a t
      | (none, t) => (none, t) := rfl

/-- Behind a computation that has spent its fuel nothing happens. -/
theorem bind_of_none {m : FuelRun σ α} (f : α → FuelRun σ β) {s : σ} (h : (m s).1 = none) :
    (m >>= f) s = (none, (m s).2) := by
  rw [bind_apply]
  rcases hm : m s with ⟨result, t⟩
  rw [hm] at h
  cases h
  rfl

/-- Behind a computation that gives a result the rest goes on. -/
theorem bind_of_some {m : FuelRun σ α} (f : α → FuelRun σ β) {a : α} {s t : σ} (h : m s = (some a, t)) :
    (m >>= f) s = f a t := by
  rw [bind_apply, h]

/-- Reading the state gives the state. -/
@[simp] theorem read_apply (s : σ) : (read : FuelRun σ σ) s = (some s, s) := rfl

/-- A change changes the state. -/
@[simp] theorem update_apply (f : σ → σ) (s : σ) : update f s = (some (), f s) := rfl

/-- A computation on the state that is read. -/
@[simp] theorem read_bind_apply (f : σ → FuelRun σ β) (s : σ) : (read >>= f) s = f s s := rfl

/-- A computation after a change. -/
@[simp] theorem update_bind_apply (g : σ → σ) (f : Unit → FuelRun σ β) (s : σ) :
    (update g >>= f) s = f () (g s) := rfl

end FuelRun

end DasEdge.Library

/-!
# What a computation does to its state

A computation relates the state that it starts in to the one that it ends in: by one relation when it
gives a result, and by another when its fuel is spent. Where the first is reflexive and transitive and
may stand in front of the second, the pieces of a program can be looked at one by one. Often the two
relations are the same.
-/

namespace DasEdge.Library

namespace FuelRun

variable {σ α β γ : Type}

/-- A computation behind a pure one. -/
theorem pure_andThen (a : α) (f : α → FuelRun σ β) : (pure a : FuelRun σ α) >>= f = f a := rfl

/-- What is asked of computations, with the laws that sequences need. -/
structure Outcome (σ : Type) where
  done : σ → σ → Prop
  spent : σ → σ → Prop
  done_refl : ∀ s, done s s
  done_trans : ∀ {s t u}, done s t → done t u → done s u
  spent_refl : ∀ s, spent s s
  spent_trans : ∀ {s t u}, done s t → spent t u → spent s u

/-- The outcome of a computation from a state is as asked. -/
def Outcome.holds (O : Outcome σ) (s : σ) (r : Option α × σ) : Prop :=
  (r.1.isSome → O.done s r.2) ∧ (r.1 = none → O.spent s r.2)

/-- From every state the outcome is as asked. -/
def Leads (O : Outcome σ) (m : FuelRun σ α) : Prop := ∀ s, O.holds s (m s)

/-- Whatever state the computation starts in is related to the one that it ends in. -/
def Relates (R : σ → σ → Prop) (m : FuelRun σ α) : Prop := ∀ s, R s (m s).2

/-- The grouping of a sequence does not matter. -/
theorem bind_bind (m : FuelRun σ α) (f : α → FuelRun σ β) (g : β → FuelRun σ γ) :
    (m >>= f) >>= g = m >>= fun a => f a >>= g := by
  funext s
  rw [bind_apply, bind_apply, bind_apply]
  rcases m s with ⟨result, t⟩
  cases result with
  | none => rfl
  | some a => rfl

section Leads

variable {O : Outcome σ}

/-- A piece behind reading the state. -/
theorem Leads.read {f : σ → FuelRun σ α} (h : ∀ s, Leads O (f s)) : Leads O (read >>= f) :=
  fun s => h s s

/-- The outcome of a choice is that of the side that is taken. -/
theorem holds_branch {test : σ → Bool} {m m' : FuelRun σ α} {s : σ}
    (h : test s = true → O.holds s (m s)) (h' : test s = false → O.holds s (m' s)) :
    O.holds s (branch test m m' s) := by
  rw [FuelRun.branch]
  cases hs : test s with
  | true => exact h hs
  | false => exact h' hs

/-- A choice leads where its sides do. -/
theorem Leads.branch {test : σ → Bool} {m m' : FuelRun σ α} (h : Leads O m) (h' : Leads O m') :
    Leads O (FuelRun.branch test m m') := fun s => holds_branch (fun _ => h s) fun _ => h' s

/-- The outcome of a computation that gives a result. -/
theorem holds_some {a : α} {s t : σ} : O.holds s (some a, t) ↔ O.done s t :=
  ⟨fun h => h.1 rfl, fun h => ⟨fun _ => h, fun hnone => absurd hnone (by simp)⟩⟩

/-- The outcome of a computation that spends its fuel. -/
theorem holds_none {s t : σ} : O.holds s ((none : Option α), t) ↔ O.spent s t :=
  ⟨fun h => h.2 rfl, fun h => ⟨fun hsome => absurd hsome (by simp), fun _ => h⟩⟩

/-- The computation without effect. -/
theorem leads_pure (a : α) : Leads O (pure a : FuelRun σ α) := fun s => holds_some.mpr (O.done_refl s)

/-- The computation whose fuel is spent. -/
theorem leads_outOfFuel : Leads O (outOfFuel : FuelRun σ α) := fun s => holds_none.mpr (O.spent_refl s)

/-- A change of the state. -/
theorem leads_update {f : σ → σ} (h : ∀ s, O.done s (f s)) : Leads O (update f) :=
  fun s => holds_some.mpr (h s)

/-- The outcome of a sequence, from a state that the second part may rely on. -/
theorem holds_bind {m : FuelRun σ α} {f : α → FuelRun σ β} {s : σ} (h : O.holds s (m s))
    (hf : ∀ a, (m s).1 = some a → O.holds (m s).2 (f a (m s).2)) : O.holds s ((m >>= f) s) := by
  rw [bind_apply]
  rcases hm : m s with ⟨result, t⟩
  rw [hm] at h hf
  cases result with
  | none => exact holds_none.mpr (holds_none.mp h)
  | some a =>
    have hrest := hf a rfl
    change O.holds s (f a t)
    rcases hend : f a t with ⟨result, u⟩
    rw [hend] at hrest
    cases result with
    | none => exact holds_none.mpr (O.spent_trans (holds_some.mp h) (holds_none.mp hrest))
    | some b => exact holds_some.mpr (O.done_trans (holds_some.mp h) (holds_some.mp hrest))

/-- A sequence leads where its parts do. -/
theorem Leads.bind {m : FuelRun σ α} {f : α → FuelRun σ β} (h : Leads O m) (hf : ∀ a, Leads O (f a)) :
    Leads O (m >>= f) := fun s => holds_bind (h s) fun a _ => hf a _

/-- A piece that may be left out. -/
theorem Leads.skipWhen {test : σ → Bool} {m : FuelRun σ Unit} (h : Leads O m) :
    Leads O (skipWhen test m) :=
  Leads.branch (leads_pure ()) h

/-- A loop leads where its rounds do. -/
theorem Leads.rounds {round : α → FuelRun σ (α × Bool)} (h : ∀ a, Leads O (round a)) (fuel : ℕ) (a : α) :
    Leads O (rounds fuel round a) := by
  induction fuel generalizing a with
  | zero => exact leads_outOfFuel
  | succ fuel ih =>
    refine (h a).bind fun next => ?_
    cases next.2 with
    | true => exact ih next.1
    | false => exact leads_pure next.1

end Leads

variable {R : σ → σ → Prop}

/-- A piece behind reading the state. -/
theorem Relates.read {f : σ → FuelRun σ α} (h : ∀ s, Relates R (f s)) : Relates R (read >>= f) :=
  fun s => h s s

variable [IsPreorder σ R]

/-- One relation for both outcomes. -/
def Outcome.same (R : σ → σ → Prop) [IsPreorder σ R] : Outcome σ where
  done := R
  spent := R
  done_refl := refl_of R
  done_trans := trans_of R
  spent_refl := refl_of R
  spent_trans := trans_of R

/-- With one relation for both outcomes only the states matter. -/
theorem holds_same {s : σ} {r : Option α × σ} : (Outcome.same R).holds s r ↔ R s r.2 := by
  rcases r with ⟨result, t⟩
  cases result with
  | none => exact holds_none
  | some a => exact holds_some

/-- A computation relates states exactly when it leads to both outcomes by the relation. -/
theorem leads_same {m : FuelRun σ α} : Leads (Outcome.same R) m ↔ Relates R m :=
  forall_congr' fun _ => holds_same

/-- A choice relates what its sides do. -/
theorem Relates.branch {test : σ → Bool} {m m' : FuelRun σ α} (h : Relates R m) (h' : Relates R m') :
    Relates R (FuelRun.branch test m m') :=
  leads_same.mp (Leads.branch (leads_same.mpr h) (leads_same.mpr h'))

/-- The computation without effect relates a state to itself. -/
theorem relates_pure (a : α) : Relates R (pure a : FuelRun σ α) := fun s => refl_of R s

/-- A sequence relates what its parts do. -/
theorem Relates.bind {m : FuelRun σ α} {f : α → FuelRun σ β} (h : Relates R m)
    (hf : ∀ a, Relates R (f a)) : Relates R (m >>= f) :=
  leads_same.mp (Leads.bind (leads_same.mpr h) fun a => leads_same.mpr (hf a))

/-- A piece that may be left out. -/
theorem Relates.skipWhen {test : σ → Bool} {m : FuelRun σ Unit} (h : Relates R m) :
    Relates R (skipWhen test m) :=
  Relates.branch (relates_pure ()) h

end FuelRun

end DasEdge.Library
