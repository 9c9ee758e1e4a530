import DasEdge.Library.FuelRun
import Mathlib.Order.Nat

/-!
# Runs that end because a rank falls

A rank bounds the fuel that a run needs: every piece of a program keeps it from rising, every round
of a loop and every call into the recursion lowers it. Pieces that do not meet this are reported by a
mark on the state, and a mark of its own tells the loops that are never left. The rules compose the
three facts along the structure of a program.
-/

namespace DasEdge.Library

namespace FuelRun

variable {σ α β : Type}

/-- The marks of a state that a termination argument looks at. -/
structure Marks (σ : Type) where
  rank : σ → ℕ
  excused : σ → Prop
  lost : σ → Prop

variable (M : Marks σ)

/-- An excuse stays, and a run that gives a result has not got lost. -/
def TracksAt (m : FuelRun σ α) (s : σ) : Prop :=
  (M.excused s → M.excused (m s).2) ∧ ((m s).1.isSome → M.lost (m s).2 → M.lost s)

/-- `TracksAt` at every state. -/
def Tracks (m : FuelRun σ α) : Prop := ∀ s, TracksAt M m s

/-- From a rank below `n` the run gives a result without a rise in rank, or it is excused. -/
def EndsAt (n : ℕ) (m : FuelRun σ α) (s : σ) : Prop :=
  TracksAt M m s ∧ (M.rank s < n → M.excused (m s).2 ∨ (m s).1.isSome ∧ M.rank (m s).2 ≤ M.rank s)

/-- `EndsAt` at every state. -/
def Ends (n : ℕ) (m : FuelRun σ α) : Prop := ∀ s, EndsAt M n m s

/-- From a rank below `n` the run gives a result with a lower rank, or it is excused. -/
def DropsAt (n : ℕ) (m : FuelRun σ α) (s : σ) : Prop :=
  TracksAt M m s ∧ (M.rank s < n → M.excused (m s).2 ∨ (m s).1.isSome ∧ M.rank (m s).2 < M.rank s)

/-- From a rank below `n` the round gives a result without a rise in rank, with a lower rank if the loop
goes on, or it is excused. -/
def RoundAt (n : ℕ) (m : FuelRun σ (α × Bool)) (s : σ) : Prop :=
  TracksAt M m s ∧ (M.rank s < n → M.excused (m s).2 ∨
    ∃ r, (m s).1 = some r ∧ M.rank (m s).2 ≤ M.rank s ∧ (r.2 = true → M.rank (m s).2 < M.rank s))

variable {M}

/-- The computation without effect tracks. -/
theorem tracksAt_pure (a : α) (s : σ) : TracksAt M (pure a : FuelRun σ α) s := ⟨id, fun _ => id⟩

/-- A sequence tracks when its parts do. -/
theorem TracksAt.bind {m : FuelRun σ α} {f : α → FuelRun σ β} {s : σ} (h : TracksAt M m s)
    (hf : ∀ a, TracksAt M (f a) (m s).2) : TracksAt M (m >>= f) s := by
  rw [TracksAt, bind_apply]
  rcases hm : m s with ⟨result, t⟩
  rw [TracksAt, hm] at h
  cases result with
  | none => exact ⟨h.1, fun h => absurd h (by simp)⟩
  | some a =>
    have hrest := hf a
    rw [hm] at hrest
    exact ⟨fun hs => hrest.1 (h.1 hs), fun hsome hlost => h.2 rfl (hrest.2 hsome hlost)⟩

/-- A choice tracks when both sides do. -/
theorem TracksAt.branch {test : σ → Bool} {m m' : FuelRun σ α} {s : σ}
    (h : test s = true → TracksAt M m s)
    (h' : test s = false → TracksAt M m' s) : TracksAt M (branch test m m') s := by
  rw [TracksAt, FuelRun.branch]
  cases hs : test s with
  | true => exact h hs
  | false => exact h' hs

/-- A sequence tracks when its parts do, from every state. -/
theorem Tracks.bind {m : FuelRun σ α} {f : α → FuelRun σ β} (h : Tracks M m)
    (hf : ∀ a, Tracks M (f a)) :
    Tracks M (m >>= f) := fun s => (h s).bind fun a => hf a _

/-- The computation without effect tracks from every state. -/
theorem tracks_pure (a : α) : Tracks M (pure a : FuelRun σ α) := tracksAt_pure a

/-- A choice tracks when both sides do, from every state. -/
theorem Tracks.branch {test : σ → Bool} {m m' : FuelRun σ α} (h : Tracks M m) (h' : Tracks M m') :
    Tracks M (FuelRun.branch test m m') := fun s => TracksAt.branch (fun _ => h s) (fun _ => h' s)

/-- A piece that may be left out tracks. -/
theorem Tracks.skipWhen {test : σ → Bool} {m : FuelRun σ Unit} (h : Tracks M m) :
    Tracks M (skipWhen test m) :=
  Tracks.branch (tracksAt_pure ()) h

/-- Reading the state before a piece that tracks. -/
theorem Tracks.read {f : σ → FuelRun σ α} (h : ∀ s, Tracks M (f s)) : Tracks M (read >>= f) :=
  fun s => h s s

/-- A loop tracks when its round does. -/
theorem Tracks.rounds {round : α → FuelRun σ (α × Bool)} (h : ∀ a, Tracks M (round a))
    (fuel : ℕ) (a : α) :
    Tracks M (rounds fuel round a) := by
  induction fuel generalizing a with
  | zero => exact fun s => ⟨id, fun h => absurd h (by simp [FuelRun.rounds, outOfFuel])⟩
  | succ fuel ih =>
    intro s
    refine (h a s).bind fun next => ?_
    cases next.2 with
    | true => exact ih next.1 _
    | false => exact tracksAt_pure next.1 _

/-- A piece that ends tracks. -/
theorem Ends.tracks {n : ℕ} {m : FuelRun σ α} (h : Ends M n m) : Tracks M m := fun s => (h s).1

/-- A piece that ends from higher ranks ends from lower ones. -/
theorem Ends.mono {n k : ℕ} {m : FuelRun σ α} (h : Ends M n m) (hk : k ≤ n) : Ends M k m :=
  fun s => ⟨(h s).1, fun hs => (h s).2 (lt_of_lt_of_le hs hk)⟩

/-- A run that lowers the rank ends. -/
theorem DropsAt.ends {n : ℕ} {m : FuelRun σ α} {s : σ} (h : DropsAt M n m s) : EndsAt M n m s :=
  ⟨h.1, fun hs => (h.2 hs).imp_right fun hr => ⟨hr.1, hr.2.le⟩⟩

/-- A round that lowers the rank is one after which the loop may go on. -/
theorem DropsAt.round {n : ℕ} {m : FuelRun σ (α × Bool)} {s : σ} (h : DropsAt M n m s) :
    RoundAt M n m s := by
  refine ⟨h.1, fun hs => (h.2 hs).imp_right ?_⟩
  rintro ⟨hsome, hrank⟩
  obtain ⟨r, hr⟩ := Option.isSome_iff_exists.mp hsome
  exact ⟨r, hr, hrank.le, fun _ => hrank⟩

/-- The computation without effect ends. -/
theorem endsAt_pure (n : ℕ) (a : α) (s : σ) : EndsAt M n (pure a : FuelRun σ α) s :=
  ⟨tracksAt_pure a s, fun _ => .inr ⟨rfl, le_rfl⟩⟩

/-- The computation without effect ends from every state. -/
theorem ends_pure (n : ℕ) (a : α) : Ends M n (pure a : FuelRun σ α) := endsAt_pure n a

/-- A sequence ends when its parts do. -/
theorem EndsAt.bind {n : ℕ} {m : FuelRun σ α} {f : α → FuelRun σ β} {s : σ} (h : EndsAt M n m s)
    (hf : ∀ a, EndsAt M n (f a) (m s).2) : EndsAt M n (m >>= f) s := by
  refine ⟨h.1.bind fun a => (hf a).1, fun hs => ?_⟩
  rw [bind_apply]
  rcases hm : m s with ⟨result, t⟩
  have hrest := h.2 hs
  rw [hm] at hrest hf
  cases result with
  | none =>
    rcases hrest with hexcused | ⟨hsome, -⟩
    · exact .inl hexcused
    · cases hsome
  | some a =>
    rcases hrest with hexcused | ⟨-, hrank⟩
    · exact .inl ((hf a).1.1 hexcused)
    · exact ((hf a).2 (lt_of_le_of_lt hrank hs)).imp_right fun h => ⟨h.1, h.2.trans hrank⟩

/-- A sequence ends when its parts do, from every state. -/
theorem Ends.bind {n : ℕ} {m : FuelRun σ α} {f : α → FuelRun σ β} (h : Ends M n m)
    (hf : ∀ a, Ends M n (f a)) :
    Ends M n (m >>= f) := fun s => (h s).bind fun a => hf a _

/-- Behind a piece that lowers the rank the rest may need one less. -/
theorem DropsAt.bind {n : ℕ} {m : FuelRun σ α} {f : α → FuelRun σ β} {s : σ} (h : DropsAt M (n + 1) m s)
    (hf : ∀ a, Ends M n (f a)) : DropsAt M (n + 1) (m >>= f) s := by
  refine ⟨h.1.bind fun a => (hf a _).1, fun hs => ?_⟩
  rcases h.2 hs with hexcused | ⟨hsome, hrank⟩
  · rw [bind_apply]
    rcases hm : m s with ⟨result, t⟩
    rw [hm] at hexcused
    cases result with
    | none => exact .inl hexcused
    | some a => exact .inl ((hf a t).1.1 hexcused)
  · rw [bind_apply]
    rcases hm : m s with ⟨result, t⟩
    rw [hm] at hsome hrank
    cases result with
    | none => cases hsome
    | some a =>
      have hlt : M.rank t < n := lt_of_lt_of_le hrank (Nat.lt_succ_iff.mp hs)
      exact ((hf a t).2 hlt).imp_right fun h => ⟨h.1, lt_of_le_of_lt h.2 hrank⟩

/-- A piece that lowers the rank, with a rest that does not raise it. -/
theorem DropsAt.bind_ends {n : ℕ} {m : FuelRun σ α} {f : α → FuelRun σ β} {s : σ} (h : DropsAt M n m s)
    (hf : ∀ a, Ends M n (f a)) : DropsAt M n (m >>= f) s := by
  cases n with
  | zero => exact ⟨h.1.bind fun a => (hf a _).1, fun hs => absurd hs (Nat.not_lt_zero _)⟩
  | succ n => exact h.bind fun a => (hf a).mono (Nat.le_succ n)

/-- Reading the state before a piece that lowers the rank. -/
theorem DropsAt.read {n : ℕ} {f : σ → FuelRun σ α} {s : σ} (h : DropsAt M n (f s) s) :
    DropsAt M n (FuelRun.read >>= f) s := h

/-- A piece that tracks from a state with an excuse. -/
theorem TracksAt.dropsAt {n : ℕ} {m : FuelRun σ α} {s : σ} (h : TracksAt M m s) (hs : M.excused s) :
    DropsAt M n m s := ⟨h, fun _ => .inl (h.1 hs)⟩

/-- A piece with a rest that lowers the rank. -/
theorem EndsAt.bind_drops {n : ℕ} {m : FuelRun σ α} {f : α → FuelRun σ β} {s : σ} (h : EndsAt M n m s)
    (hf : ∀ a, DropsAt M n (f a) (m s).2) : DropsAt M n (m >>= f) s := by
  refine ⟨h.1.bind fun a => (hf a).1, fun hs => ?_⟩
  rw [bind_apply]
  rcases hm : m s with ⟨result, t⟩
  have hrest := h.2 hs
  rw [hm] at hrest
  cases result with
  | none =>
    rcases hrest with hexcused | ⟨hsome, -⟩
    · exact .inl hexcused
    · cases hsome
  | some a =>
    have hdrop := hf a
    rw [hm] at hdrop
    rcases hrest with hexcused | ⟨-, hrank⟩
    · exact .inl (hdrop.1.1 hexcused)
    · exact (hdrop.2 (lt_of_le_of_lt hrank hs)).imp_right fun h => ⟨h.1, lt_of_lt_of_le h.2 hrank⟩

/-- A choice ends when both sides do. -/
theorem EndsAt.branch {n : ℕ} {test : σ → Bool} {m m' : FuelRun σ α} {s : σ}
    (h : test s = true → EndsAt M n m s)
    (h' : test s = false → EndsAt M n m' s) : EndsAt M n (branch test m m') s := by
  rw [EndsAt, TracksAt, FuelRun.branch]
  cases hs : test s with
  | true => exact h hs
  | false => exact h' hs

/-- A choice ends when both sides do, from every state. -/
theorem Ends.branch {n : ℕ} {test : σ → Bool} {m m' : FuelRun σ α} (h : Ends M n m) (h' : Ends M n m') :
    Ends M n (branch test m m') := fun s => EndsAt.branch (fun _ => h s) (fun _ => h' s)

/-- A piece that may be left out ends. -/
theorem Ends.skipWhen {n : ℕ} {test : σ → Bool} {m : FuelRun σ Unit} (h : Ends M n m) :
    Ends M n (skipWhen test m) :=
  Ends.branch (ends_pure n ()) h

/-- Reading the state before a piece that ends. -/
theorem Ends.read {n : ℕ} {f : σ → FuelRun σ α} (h : ∀ s, Ends M n (f s)) : Ends M n (read >>= f) :=
  fun s => h s s

/-- Reading the state before a piece that ends from it. -/
theorem EndsAt.read {n : ℕ} {f : σ → FuelRun σ α} {s : σ} (h : EndsAt M n (f s) s) :
    EndsAt M n (FuelRun.read >>= f) s := h

/-- A piece that is not left out. -/
theorem DropsAt.skipWhen {n : ℕ} {test : σ → Bool} {m : FuelRun σ Unit} {s : σ} (h : DropsAt M n m s)
    (hs : test s = false) : DropsAt M n (skipWhen test m) s := by
  have hread : FuelRun.skipWhen test m s = m s := if_neg (by simp [hs])
  rw [DropsAt, TracksAt, hread]
  exact h

/-- A choice between rounds is a round. -/
theorem RoundAt.branch {n : ℕ} {test : σ → Bool} {m m' : FuelRun σ (α × Bool)} {s : σ}
    (h : test s = true → RoundAt M n m s) (h' : test s = false → RoundAt M n m' s) :
    RoundAt M n (FuelRun.branch test m m') s := by
  rw [RoundAt, TracksAt, FuelRun.branch]
  cases hs : test s with
  | true => exact h hs
  | false => exact h' hs

/-- A round that leaves the loop at once. -/
theorem roundAt_leave (n : ℕ) (a : α) (s : σ) : RoundAt M n (pure (a, false)) s :=
  ⟨tracksAt_pure _ s, fun _ => .inr ⟨(a, false), rfl, le_rfl, fun h => by cases h⟩⟩

/-- A round that ends with a decision about the state it has come to. -/
theorem EndsAt.round {n : ℕ} {m : FuelRun σ β} {f : β → FuelRun σ (α × Bool)} {s : σ}
    (h : EndsAt M n m s)
    (hf : ∀ b, ∃ r, f b (m s).2 = (some r, (m s).2) ∧ (r.2 = true → M.rank (m s).2 < M.rank s)) :
    RoundAt M n (m >>= f) s := by
  have hnext : TracksAt M (m >>= f) s := by
    apply h.1.bind
    intro b
    obtain ⟨r, hr, -⟩ := hf b
    rw [TracksAt, hr]
    exact ⟨id, fun _ => id⟩
  refine ⟨hnext, fun hs => ?_⟩
  have hend := h.2 hs
  rw [bind_apply]
  rcases hm : m s with ⟨result, t⟩
  rw [hm] at hend hf
  cases result with
  | none =>
    rcases hend with hexcused | ⟨hsome, -⟩
    · exact .inl hexcused
    · cases hsome
  | some b =>
    obtain ⟨r, hr, hgo⟩ := hf b
    simp only [hr]
    rcases hend with hexcused | ⟨-, hrank⟩
    · exact .inl hexcused
    · exact .inr ⟨r, rfl, hrank, hgo⟩

/-- A piece before a round. -/
theorem EndsAt.bind_roundAt {n : ℕ} {m : FuelRun σ β} {f : β → FuelRun σ (α × Bool)} {s : σ}
    (h : EndsAt M n m s)
    (hf : ∀ b, RoundAt M n (f b) (m s).2) : RoundAt M n (m >>= f) s := by
  refine ⟨h.1.bind fun b => (hf b).1, fun hs => ?_⟩
  rw [bind_apply]
  rcases hm : m s with ⟨result, t⟩
  have hrest := h.2 hs
  rw [hm] at hrest hf
  cases result with
  | none =>
    rcases hrest with hexcused | ⟨hsome, -⟩
    · exact .inl hexcused
    · cases hsome
  | some b =>
    rcases hrest with hexcused | ⟨-, hrank⟩
    · exact .inl ((hf b).1.1 hexcused)
    · rcases (hf b).2 (lt_of_le_of_lt hrank hs) with hexcused | ⟨r, hr, hle, hlt⟩
      · exact .inl hexcused
      · exact .inr ⟨r, hr, hle.trans hrank, fun h => lt_of_lt_of_le (hlt h) hrank⟩

/-- Reading the state before a round. -/
theorem RoundAt.read {n : ℕ} {f : σ → FuelRun σ (α × Bool)} {s : σ} (h : RoundAt M n (f s) s) :
    RoundAt M n (read >>= f) s := h

/-- A loop that is in a trap gives no result. -/
theorem rounds_trap {round : α → FuelRun σ (α × Bool)} {trap : σ → Prop}
    (htrap : ∀ a s, trap s → M.excused (round a s).2 ∧
      ∀ r, (round a s).1 = some r → r.2 = true ∧
        trap (round a s).2) (fuel : ℕ) (a : α) {s : σ} (hs : trap s) :
    (rounds fuel round a s).1 = none ∧
      (fuel ≠ 0 ∨ M.excused s → M.excused (rounds fuel round a s).2) := by
  induction fuel generalizing a s with
  | zero => exact ⟨rfl, fun h => h.resolve_left (fun h => h rfl)⟩
  | succ fuel ih =>
    obtain ⟨hexcused, hnext⟩ := htrap a s hs
    rw [FuelRun.rounds, bind_apply]
    rcases hm : round a s with ⟨result, t⟩
    rw [hm] at hexcused hnext
    cases result with
    | none => exact ⟨rfl, fun _ => hexcused⟩
    | some r =>
      obtain ⟨hgo, ht⟩ := hnext r rfl
      simp only [hgo, if_true]
      exact ⟨(ih r.1 ht).1, fun _ => (ih r.1 ht).2 (.inr hexcused)⟩

/-- A loop whose rounds lower the rank, except in a trap that is an excuse, ends with as much fuel
as the rank asks for. -/
theorem Ends.rounds_of_trap {n fuel : ℕ} {round : α → FuelRun σ (α × Bool)} (hfuel : n ≤ fuel)
    (trap : σ → Prop)
    (h : ∀ a s, ¬ trap s → RoundAt M n (round a) s)
    (htrap : ∀ a s, trap s → M.excused (round a s).2 ∧
      ∀ r, (round a s).1 = some r → r.2 = true ∧
        trap (round a s).2) (a : α) : Ends M n (rounds fuel round a) := by
  have htracks : ∀ fuel a, Tracks M (FuelRun.rounds fuel round a) := by
    intro fuel
    induction fuel with
    | zero => exact fun a s => ⟨id, fun h => absurd h (by simp [FuelRun.rounds, outOfFuel])⟩
    | succ fuel ih =>
      intro a s
      by_cases hs : trap s
      · obtain ⟨hnone, hexcused⟩ := rounds_trap htrap (fuel + 1) a hs
        exact ⟨fun _ => hexcused (.inl (Nat.succ_ne_zero fuel)), fun h => by rw [hnone] at h; cases h⟩
      · refine (h a s hs).1.bind fun next => ?_
        cases next.2 with
        | true => exact ih next.1 _
        | false => exact tracksAt_pure next.1 _
  have hends : ∀ fuel a s, M.rank s < fuel → M.rank s < n →
    M.excused (FuelRun.rounds fuel round a s).2 ∨
      (FuelRun.rounds fuel round a s).1.isSome ∧ M.rank (FuelRun.rounds fuel round a s).2 ≤
      M.rank s := by
    intro fuel
    induction fuel with
    | zero => exact fun a s hs => absurd hs (Nat.not_lt_zero _)
    | succ fuel ih =>
      intro a s hs hn
      by_cases htrapped : trap s
      · exact .inl ((rounds_trap htrap (fuel + 1) a htrapped).2 (.inl (Nat.succ_ne_zero fuel)))
      rw [FuelRun.rounds, bind_apply]
      have hround := (h a s htrapped).2 hn
      rcases hm : round a s with ⟨result, t⟩
      rw [hm] at hround
      cases result with
      | none =>
        rcases hround with hexcused | ⟨r, hr, -⟩
        · exact .inl hexcused
        · cases hr
      | some next =>
        simp only
        rcases hround with hexcused | ⟨r, hr, hle, hlt⟩
        · left
          split
          · exact (htracks fuel next.1 t).1 hexcused
          · exact hexcused
        · cases hr
          split
          · next hgo =>
            have hdrop : M.rank t < M.rank s := hlt hgo
            exact (ih next.1 t (by omega) (by omega)).imp_right fun h => ⟨h.1, h.2.trans hle⟩
          · exact .inr ⟨rfl, hle⟩
  exact fun s => ⟨htracks fuel a s, fun hs => hends fuel a s (lt_of_lt_of_le hs hfuel) hs⟩

/-- A loop whose rounds lower the rank ends with as much fuel as the rank asks for. -/
theorem Ends.rounds {n fuel : ℕ} {round : α → FuelRun σ (α × Bool)} (hfuel : n ≤ fuel)
    (h : ∀ a s, RoundAt M n (round a) s) (a : α) : Ends M n (FuelRun.rounds fuel round a) :=
  Ends.rounds_of_trap hfuel (fun _ => False) (fun a s _ => h a s) (fun _ _ h => h.elim) a

end FuelRun

end DasEdge.Library
