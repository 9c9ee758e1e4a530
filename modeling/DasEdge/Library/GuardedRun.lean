import Mathlib.Data.List.Basic

/-!
# Runs of a blocking step and their refinement by a total specification

A step returns an output and the next state, or `none` when the call never returns. A run
feeds a list of requests to the step and stops at the first call that does not return. The
specification side is total. One simulation lemma lifts a per-step correspondence to whole
runs, under a guard that is checked in the state before each step.
-/

namespace DasEdge.Library

variable {σ τ ι ο : Type*}

/-- Outputs and final state of a run, or `none` when some call never returns. -/
def runBlocking (step : σ → ι → Option (ο × σ)) : σ → List ι → Option (List ο × σ)
  | s, [] => some ([], s)
  | s, i :: rest =>
    (step s i).bind fun first =>
      (runBlocking step first.2 rest).map fun tail => (first.1 :: tail.1, tail.2)

/-- Outputs and final state of a run of a total step. -/
def runTotal (step : τ → ι → ο × τ) : τ → List ι → List ο × τ
  | t, [] => ([], t)
  | t, i :: rest =>
    let first := step t i
    let tail := runTotal step first.2 rest
    (first.1 :: tail.1, tail.2)

/-- A run that gets through its requests gets through the first of them, and from there through the
others. -/
theorem runBlocking_cons_some {step : σ → ι → Option (ο × σ)} {s s' : σ} {i : ι} {rest : List ι}
    {outs : List ο}
    (h : runBlocking step s (i :: rest) = some (outs, s')) :
    ∃ o s₁ tail, step s i = some (o, s₁) ∧ runBlocking step s₁ rest = some (tail, s') ∧
      outs = o :: tail := by
  rw [runBlocking] at h
  cases hfirst : step s i with
  | none =>
    rw [hfirst] at h
    cases h
  | some first =>
    rw [hfirst] at h
    simp only [Option.bind_some, Option.map_eq_some_iff] at h
    obtain ⟨tail, htail, hpair⟩ := h
    cases hpair
    exact ⟨first.1, first.2, tail.1, rfl, htail, rfl⟩

/-- A run over two request lists continues from the state the first one leaves. -/
theorem runBlocking_append (step : σ → ι → Option (ο × σ)) (s : σ) (first second : List ι) :
    runBlocking step s (first ++ second) =
      (runBlocking step s first).bind fun r =>
        (runBlocking step r.2 second).map fun tail => (r.1 ++ tail.1, tail.2) := by
  induction first generalizing s with
  | nil => simp [runBlocking]
  | cons i rest ih =>
    simp only [List.cons_append, runBlocking, ih]
    cases step s i with
    | none => rfl
    | some head =>
      simp only [Option.bind_some]
      cases runBlocking step head.2 rest with
      | none => rfl
      | some r =>
        simp only [Option.bind_some, Option.map_some, Option.map_map, Function.comp_def,
          List.cons_append]

/-- A total run over two request lists continues from the state the first one leaves. -/
theorem runTotal_append (step : τ → ι → ο × τ) (t : τ) (first second : List ι) :
    runTotal step t (first ++ second) =
      ((runTotal step t first).1 ++ (runTotal step (runTotal step t first).2 second).1,
        (runTotal step (runTotal step t first).2 second).2) := by
  induction first generalizing t with
  | nil => rfl
  | cons i rest ih => simp only [List.cons_append, runTotal, ih]

/-- A run has one output for each request. -/
theorem runTotal_length (step : τ → ι → ο × τ) (t : τ) (inputs : List ι) :
    (runTotal step t inputs).1.length = inputs.length := by
  induction inputs generalizing t with
  | nil => rfl
  | cons i rest ih => simp only [runTotal, List.length_cons, ih]

/-- Each output is that of its request in some state. -/
theorem runTotal_getElem? (step : τ → ι → ο × τ) {t : τ} {inputs : List ι} {k : ℕ} {i : ι}
    (h : inputs[k]? = some i) : ∃ t', (runTotal step t inputs).1[k]? = some (step t' i).1 := by
  induction inputs generalizing t k with
  | nil => cases h
  | cons j rest ih =>
    cases k with
    | zero =>
      obtain rfl := Option.some.inj h
      exact ⟨t, rfl⟩
    | succ k => exact ih h

/-- Driving a step through translated requests is running it on the translations. -/
theorem runTotal_map {κ : Type*} (step : τ → ι → ο × τ) (f : κ → ι) (t : τ) (inputs : List κ) :
    runTotal (fun t k => step t (f k)) t inputs = runTotal step t (inputs.map f) := by
  induction inputs generalizing t with
  | nil => rfl
  | cons k rest ih => simp only [runTotal, List.map_cons, ih]

/-- A step whose outputs are made of those of another. -/
theorem runTotal_map_output {κ : Type*} (step : τ → ι → ο × τ) (f : ο → κ) (t : τ) (inputs : List ι) :
    runTotal (fun t i => (f (step t i).1, (step t i).2)) t inputs =
      ((runTotal step t inputs).1.map f, (runTotal step t inputs).2) := by
  induction inputs generalizing t with
  | nil => rfl
  | cons i rest ih => simp only [runTotal, ih, List.map_cons]

/-- A step that makes lists of outputs makes the same of inputs in chunks, each of which it takes as
a whole. -/
theorem runTotal_chunks (step : τ → ι → List ο × τ) (t : τ) (chunks : List (List ι)) :
    (runTotal (fun t chunk => ((runTotal step t chunk).1.flatten, (runTotal step t chunk).2)) t
      chunks).1.flatten =
      (runTotal step t chunks.flatten).1.flatten := by
  induction chunks generalizing t with
  | nil => rfl
  | cons chunk rest ih =>
    rw [List.flatten_cons, runTotal_append, List.flatten_append, runTotal, List.flatten_cons, ih]

/-- Driving a blocking step through translated requests is running it on the translations. -/
theorem runBlocking_map {κ : Type*} (step : σ → ι → Option (ο × σ)) (f : κ → ι) (s : σ)
    (inputs : List κ) :
    runBlocking (fun s k => step s (f k)) s inputs = runBlocking step s (inputs.map f) := by
  induction inputs generalizing s with
  | nil => rfl
  | cons k rest ih => simp only [runBlocking, List.map_cons, ih]

/-- Every state met before a step satisfies the guard for that step. -/
def GuardedRun (step : σ → ι → Option (ο × σ)) (guard : σ → ι → Prop) : σ → List ι → Prop
  | _, [] => True
  | s, i :: rest => guard s i ∧
    match step s i with
    | none => True
    | some r => GuardedRun step guard r.2 rest

instance GuardedRun.decidable (step : σ → ι → Option (ο × σ)) (guard : σ → ι → Prop)
    [∀ s i, Decidable (guard s i)] : (s : σ) → (inputs : List ι) →
    Decidable (GuardedRun step guard s inputs)
  | _, [] => isTrue trivial
  | s, i :: rest => @instDecidableAnd (guard s i) _ inferInstance
    (match step s i with
      | none => isTrue trivial
      | some r => GuardedRun.decidable step guard r.2 rest)

/-- The states met with translated requests are those met with the translations. -/
theorem guardedRun_map {κ : Type*} (step : σ → ι → Option (ο × σ)) (guard : σ → ι → Prop)
    (f : κ → ι) (s : σ)
    (inputs : List κ) :
    GuardedRun (fun s k => step s (f k)) (fun s k => guard s (f k)) s inputs ↔
      GuardedRun step guard s (inputs.map f) := by
  induction inputs generalizing s with
  | nil => exact Iff.rfl
  | cons k rest ih =>
    rw [List.map_cons, GuardedRun, GuardedRun]
    refine and_congr_right fun _ => ?_
    cases step s (f k) with
    | none => exact Iff.rfl
    | some r => exact ih r.2

/-- Two guards that agree wherever an invariant holds are met by the same runs. -/
theorem guardedRun_iff (step : σ → ι → Option (ο × σ)) (guard guard' : σ → ι → Prop) (inv : σ → Prop)
    (hagree : ∀ s i, inv s → (guard s i ↔ guard' s i))
    (hstep : ∀ s i r, inv s → step s i = some r → inv r.2) {s : σ}
    (hinv : inv s) (inputs : List ι) : GuardedRun step guard s inputs ↔
    GuardedRun step guard' s inputs := by
  induction inputs generalizing s with
  | nil => exact Iff.rfl
  | cons i rest ih =>
    rw [GuardedRun, GuardedRun, hagree s i hinv]
    refine and_congr_right fun _ => ?_
    cases hnext : step s i with
    | none => exact Iff.rfl
    | some r => exact ih (hstep s i r hinv hnext)

/-- A per-step correspondence under a guard extends to every run whose steps meet the guard. -/
theorem runBlocking_refines (step : σ → ι → Option (ο × σ)) (spec : τ → ι → ο × τ)
    (guard : σ → ι → Prop) (rel : σ → τ → Prop)
    (hstep : ∀ s t i, rel s t → guard s i →
      ∃ s', step s i = some ((spec t i).1, s') ∧ rel s' (spec t i).2)
    (s : σ) (t : τ) (inputs : List ι) (hrel : rel s t) (hguard : GuardedRun step guard s inputs) :
    ∃ s', runBlocking step s inputs = some ((runTotal spec t inputs).1, s') ∧
      rel s' (runTotal spec t inputs).2 := by
  induction inputs generalizing s t with
  | nil => exact ⟨s, rfl, hrel⟩
  | cons i rest ih =>
    obtain ⟨hhead, htail⟩ := hguard
    obtain ⟨s₁, hs₁, hrel₁⟩ := hstep s t i hrel hhead
    rw [hs₁] at htail
    obtain ⟨s₂, hs₂, hrel₂⟩ := ih s₁ (spec t i).2 hrel₁ htail
    refine ⟨s₂, ?_, hrel₂⟩
    rw [runBlocking, hs₁, Option.bind_some, hs₂]
    rfl

/-- A step that always returns gets through every run. -/
theorem runBlocking_some (step : σ → ι → ο × σ) (s : σ) (inputs : List ι) :
    runBlocking (fun s i => some (step s i)) s inputs = some (runTotal step s inputs) := by
  induction inputs generalizing s with
  | nil => rfl
  | cons i rest ih =>
    rw [runBlocking, Option.bind_some, ih]
    rfl

/-- The correspondence for a step that always returns. -/
theorem runTotal_refines (step : σ → ι → ο × σ) (spec : τ → ι → ο × τ) (guard : σ → ι → Prop)
    (rel : σ → τ → Prop)
    (hstep : ∀ s t i, rel s t → guard s i → (step s i).1 = (spec t i).1 ∧ rel (step s i).2 (spec t i).2)
    (s : σ) (t : τ) (inputs : List ι) (hrel : rel s t)
    (hguard : GuardedRun (fun s i => some (step s i)) guard s inputs) :
    (runTotal step s inputs).1 = (runTotal spec t inputs).1 ∧
      rel (runTotal step s inputs).2 (runTotal spec t inputs).2 := by
  have hblocking : ∀ s t i, rel s t → guard s i → ∃ s', some (step s i) = some ((spec t i).1, s') ∧
      rel s' (spec t i).2 := by
    intro s t i hst hi
    obtain ⟨hout, hnext⟩ := hstep s t i hst hi
    exact ⟨(step s i).2, by rw [← hout], hnext⟩
  obtain ⟨s', hrun, hend⟩ := runBlocking_refines _ spec guard rel hblocking s t inputs hrel hguard
  rw [runBlocking_some, Option.some_inj] at hrun
  rw [hrun]
  exact ⟨rfl, hend⟩

/-- A relation between the outputs so far and the state that every guarded step keeps holds after
each run whose steps meet the guard. -/
theorem runBlocking_keeps (step : σ → ι → Option (ο × σ)) (guard : σ → ι → Prop)
    (inv : List ο → σ → Prop)
    (hstep : ∀ outs s i o s', inv outs s → guard s i → step s i = some (o, s') → inv (outs ++ [o]) s')
    {s s' : σ} {inputs : List ι} {before outs : List ο} (hinv : inv before s)
    (hguard : GuardedRun step guard s inputs)
    (hrun : runBlocking step s inputs = some (outs, s')) : inv (before ++ outs) s' := by
  induction inputs generalizing s before outs with
  | nil =>
    cases hrun
    rw [List.append_nil]
    exact hinv
  | cons i rest ih =>
    obtain ⟨hhead, htail⟩ := hguard
    obtain ⟨o, s₁, tail, hfirst, hrest, rfl⟩ := runBlocking_cons_some hrun
    rw [hfirst] at htail
    have hnext := ih (hstep before s i o s₁ hinv hhead hfirst) htail hrest
    rwa [List.append_assoc] at hnext

/-- What every guarded step of a total step function keeps holds after each run whose steps meet the
guard. -/
theorem runTotal_keeps (step : σ → ι → ο × σ) (guard : σ → ι → Prop) (inv : σ → Prop)
    (hstep : ∀ s i, inv s → guard s i → inv (step s i).2) {s : σ} (hinv : inv s) {inputs : List ι}
    (hguard : GuardedRun (fun s i => some (step s i)) guard s inputs) :
    inv (runTotal step s inputs).2 := by
  induction inputs generalizing s with
  | nil => exact hinv
  | cons i rest ih => exact ih (hstep s i hinv hguard.1) hguard.2

/-- Where a step that misses the guard shows at once, a property holds in each state of a run
exactly when the steps meet the guard. -/
theorem runTotal_always_iff (step : σ → ι → ο × σ) (guard : σ → ι → Prop) (inv ok : σ → Prop)
    (hok : ∀ s, inv s → ok s) (hstep : ∀ s i, inv s → guard s i → inv (step s i).2)
    (hshows : ∀ s i, inv s → ¬ guard s i → ¬ ok (step s i).2) {s : σ} (hinv : inv s) (inputs : List ι) :
    (∀ k, ok (runTotal step s (inputs.take k)).2) ↔
      GuardedRun (fun s i => some (step s i)) guard s inputs := by
  induction inputs generalizing s with
  | nil =>
    simp only [List.take_nil, GuardedRun, iff_true]
    exact fun _ => hok s hinv
  | cons i rest ih =>
    constructor
    · intro hall
      have hmeets : guard s i := by
        by_contra hmisses
        exact hshows s i hinv hmisses (hall 1)
      exact ⟨hmeets, (ih (hstep s i hinv hmeets)).mp fun k => hall (k + 1)⟩
    · rintro ⟨hmeets, hrest⟩ k
      cases k with
      | zero => exact hok s hinv
      | succ k => exact (ih (hstep s i hinv hmeets)).mpr hrest k

/-- The same for a step that may not return: a property holds in each state of a run, and the run
returns, exactly when the steps meet the guard. -/
theorem runBlocking_always_iff (step : σ → ι → Option (ο × σ)) (guard : σ → ι → Prop) (ok : σ → Prop)
    (hstep : ∀ s i, ok s → guard s i → ∃ o s', step s i = some (o, s') ∧ ok s')
    (hshows : ∀ s i o s', ok s → ¬ guard s i → step s i = some (o, s') → ¬ ok s') {s : σ}
    (hok : ok s) (inputs : List ι) :
    (∀ k, ∃ outs s', runBlocking step s (inputs.take k) = some (outs, s') ∧ ok s') ↔
      GuardedRun step guard s inputs := by
  induction inputs generalizing s with
  | nil =>
    simp only [List.take_nil, GuardedRun, iff_true]
    exact fun _ => ⟨[], s, rfl, hok⟩
  | cons i rest ih =>
    constructor
    · intro hall
      obtain ⟨outs, s₁, hrun, hok₁⟩ := hall 1
      obtain ⟨o, s', tail, hfirst, hnil, -⟩ := runBlocking_cons_some hrun
      obtain rfl : s' = s₁ := congrArg Prod.snd (Option.some.inj hnil)
      have hmeets : guard s i := by
        by_contra hmisses
        exact hshows s i o s' hok hmisses hfirst hok₁
      refine ⟨hmeets, ?_⟩
      rw [hfirst]
      refine (ih hok₁).mp fun k => ?_
      obtain ⟨outs, s₂, hrun, hok₂⟩ := hall (k + 1)
      obtain ⟨o', s₁', tail, hfirst', hrest, -⟩ := runBlocking_cons_some hrun
      cases hfirst.symm.trans hfirst'
      exact ⟨tail, s₂, hrest, hok₂⟩
    · rintro ⟨hmeets, hrest⟩ k
      obtain ⟨o, s', hfirst, hok'⟩ := hstep s i hok hmeets
      rw [hfirst] at hrest
      cases k with
      | zero => exact ⟨[], s, rfl, hok⟩
      | succ k =>
        obtain ⟨outs, s₂, hrun, hok₂⟩ := (ih hok').mpr hrest k
        refine ⟨o :: outs, s₂, ?_, hok₂⟩
        rw [List.take_succ_cons, runBlocking, hfirst, Option.bind_some, hrun]
        rfl

/-- When every guarded step returns and keeps a relation between the outputs so far and the state,
so does each run whose steps meet the guard. -/
theorem runBlocking_returns (step : σ → ι → Option (ο × σ)) (guard : σ → ι → Prop)
    (inv : List ο → σ → Prop)
    (hstep : ∀ outs s i, inv outs s → guard s i → ∃ o s', step s i = some (o, s') ∧
      inv (outs ++ [o]) s')
    {s : σ} {inputs : List ι} {before : List ο} (hinv : inv before s)
    (hguard : GuardedRun step guard s inputs) :
    ∃ outs s', runBlocking step s inputs = some (outs, s') ∧ inv (before ++ outs) s' := by
  induction inputs generalizing s before with
  | nil => exact ⟨[], s, rfl, by rwa [List.append_nil]⟩
  | cons i rest ih =>
    obtain ⟨hhead, htail⟩ := hguard
    obtain ⟨o, s₁, hfirst, hnext⟩ := hstep before s i hinv hhead
    rw [hfirst] at htail
    obtain ⟨outs, s', hrun, hkeeps⟩ := ih hnext htail
    refine ⟨o :: outs, s', ?_, by rwa [List.append_assoc] at hkeeps⟩
    rw [runBlocking, hfirst, Option.bind_some, hrun]
    rfl

/-- Every step of a run returns, and is right by a relation between the states before and behind it
and what it shows. -/
def EveryStep (step : σ → ι → Option (ο × σ)) (right : σ → ι → ο → σ → Prop) : σ → List ι → Prop
  | _, [] => True
  | s, i :: rest => ∃ o s', step s i = some (o, s') ∧ right s i o s' ∧ EveryStep step right s' rest

/-- Where every step returns, keeps an invariant and is right exactly when it meets the guard, the
steps of a run are right exactly when they meet the guard. -/
theorem everyStep_iff (step : σ → ι → Option (ο × σ)) (right : σ → ι → ο → σ → Prop)
    (guard : σ → ι → Prop) (inv : σ → Prop)
    (hstep : ∀ s i, inv s → ∃ o s', step s i = some (o, s') ∧ inv s' ∧ (right s i o s' ↔ guard s i))
    {s : σ} (hinv : inv s)
    (inputs : List ι) : EveryStep step right s inputs ↔ GuardedRun step guard s inputs := by
  induction inputs generalizing s with
  | nil => exact Iff.rfl
  | cons i rest ih =>
    obtain ⟨o, s', hnext, hinv', hright⟩ := hstep s i hinv
    rw [EveryStep, GuardedRun, hnext]
    constructor
    · rintro ⟨o, s', hsame, hok, hrest⟩
      cases hsame
      exact ⟨hright.mp hok, (ih hinv').mp hrest⟩
    · rintro ⟨hmeets, hrest⟩
      exact ⟨o, s', rfl, hright.mpr hmeets, (ih hinv').mpr hrest⟩

/-- A step that is watched, with more state, makes the same outputs. -/
theorem runBlocking_watch (step : σ → ι → Option (ο × σ)) (next : τ → ο × σ → τ) (watched : τ → σ)
    (hnext : ∀ t r, watched (next t r) = r.2) (t : τ) {inputs : List ι} {outs : List ο} {s : σ}
    (hrun : runBlocking step (watched t) inputs = some (outs, s)) :
    ∃ t', runBlocking (fun t i => (step (watched t) i).map fun r => (r.1, next t r)) t inputs =
      some (outs, t') ∧
      watched t' = s := by
  induction inputs generalizing t outs with
  | nil =>
    cases hrun
    exact ⟨t, rfl, rfl⟩
  | cons i rest ih =>
    obtain ⟨o, s₁, tail, hfirst, hrest, rfl⟩ := runBlocking_cons_some hrun
    have hstate : watched (next t (o, s₁)) = s₁ := hnext t (o, s₁)
    obtain ⟨t', hrun', hwatched⟩ := ih (next t (o, s₁)) (hstate.symm ▸ hrest)
    refine ⟨t', ?_, hwatched⟩
    rw [runBlocking, hfirst]
    simp only [Option.map_some, Option.bind_some, hrun']

end DasEdge.Library
