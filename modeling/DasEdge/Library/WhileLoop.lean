import Mathlib.Data.List.Basic

/-!
# Loops with a test in front

A loop runs its body while a test of the state holds. Each round has an output. With a measure of
the state that every round makes smaller the loop ends, and a property of all outputs is a condition
on the state from which it starts.
-/

namespace DasEdge.Library

variable {σ ο : Type*}

/-- The outputs of the rounds of a loop, with rounds to spend; no result means that they are spent. -/
def whileRun (test : σ → Bool) (body : σ → ο × σ) : ℕ → σ → Option (List ο)
  | 0, _ => none
  | fuel + 1, s => if test s then (whileRun test body fuel (body s).2).map ((body s).1 :: ·)
    else some []

variable {test : σ → Bool} {body : σ → ο × σ}

/-- A loop whose test fails makes no outputs. -/
theorem whileRun_of_false {fuel : ℕ} {s : σ} {outs : List ο} (htest : test s = false)
    (h : whileRun test body fuel s = some outs) : outs = [] := by
  cases fuel with
  | zero => cases h
  | succ fuel =>
    rw [whileRun, htest, if_neg Bool.false_ne_true] at h
    exact (Option.some.inj h).symm

/-- A loop whose test holds makes the output of a round, and then those of the loop from the next
state on. -/
theorem whileRun_of_true {fuel : ℕ} {s : σ} {outs : List ο} (htest : test s = true)
    (h : whileRun test body fuel s = some outs) :
    ∃ fuel' tail, whileRun test body fuel' (body s).2 = some tail ∧ outs = (body s).1 :: tail := by
  cases fuel with
  | zero => cases h
  | succ fuel =>
    rw [whileRun, htest, if_pos rfl, Option.map_eq_some_iff] at h
    obtain ⟨tail, htail, hcons⟩ := h
    exact ⟨fuel, tail, htail, hcons.symm⟩

/-- A loop ends when every round makes a measure smaller. -/
theorem whileRun_ends (μ : σ → ℕ) (hless : ∀ s, test s = true → μ (body s).2 < μ s) {fuel : ℕ}
    {s : σ} (hfuel : μ s < fuel) :
    ∃ outs, whileRun test body fuel s = some outs := by
  induction fuel generalizing s with
  | zero => exact absurd hfuel (Nat.not_lt_zero _)
  | succ fuel ih =>
    rw [whileRun]
    split
    · next htest =>
      obtain ⟨tail, htail⟩ := ih (Nat.lt_of_lt_of_le (hless s htest) (Nat.le_of_lt_succ hfuel))
      exact ⟨_, by rw [htail, Option.map_some]⟩
    · exact ⟨[], rfl⟩

/-- All outputs have a property if and only if the first state meets a condition, when the condition
says in each state of an invariant that the round's output has the property and the next state meets
the condition. -/
theorem whileRun_forall_iff (inv C : σ → Prop) (Q : ο → Prop)
    (hkeeps : ∀ s, inv s → test s = true → inv (body s).2) (hend : ∀ s, inv s → test s = false → C s)
    (hround : ∀ s, inv s → test s = true → (C s ↔ Q (body s).1 ∧ C (body s).2))
    {fuel : ℕ} {s : σ} {outs : List ο} (hinv : inv s) (h : whileRun test body fuel s = some outs) :
    (∀ o ∈ outs, Q o) ↔ C s := by
  induction outs generalizing fuel s with
  | nil =>
    have hfalse : test s = false := by
      rw [← Bool.not_eq_true]
      intro htest
      obtain ⟨_, _, -, hcons⟩ := whileRun_of_true htest h
      cases hcons
    exact ⟨fun _ => hend s hinv hfalse, fun _ _ hmem => absurd hmem List.not_mem_nil⟩
  | cons o tail ih =>
    have htrue : test s = true := by
      rw [← Bool.not_eq_false]
      intro htest
      cases whileRun_of_false htest h
    obtain ⟨fuel', tail', htail, hcons⟩ := whileRun_of_true htrue h
    obtain ⟨rfl, rfl⟩ := List.cons.inj hcons
    rw [List.forall_mem_cons, hround s hinv htrue, ih (hkeeps s hinv htrue) htail]

end DasEdge.Library
