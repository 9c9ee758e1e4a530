import Mathlib.Data.Int.Notation
import Mathlib.Data.List.Count
import Mathlib.Data.List.Forall2
import Mathlib.Data.List.Induction
import Mathlib.Tactic.Common

/-!
# The watchdog of the threads

`threaddog.c` keeps a table of 200 dogs. A thread registers one with the seconds after which it is
over, feeds it, suspends and resumes it, and gives it back; `threaddog_check` reports one dog that is
over, once. Ticks are milliseconds in a `long` of 32 bits, and the seconds are kept in a signed bit
field of eight bits.

A dog registered for more than 127 seconds has a time that is negative or too short, and is reported
although it is fed. While the counter, as a signed number, is less than the time of a dog nothing is
reported of it: 24 days out of 49. In the runs where neither happens, no feed is half the range of
the counter ago and every dog has data to report, the dogs that are over are reported, and no other.
-/

namespace DasEdge.Das

/-- `THREAD_DOG_NUM` -/
def threadDogNum : ℕ := 200

/-- `thddog_state_t` -/
inductive ThddogState where
  | running | suspend | die | exit
  deriving DecidableEq

/-- `thddog_t`; a string or the data may be `NULL`. -/
structure Thddog where
  name : List UInt8
  use : Bool
  isOver : Bool
  overSec : ℤ
  tickReg : ℤ
  tickFeed : ℤ
  func : Option (List UInt8)
  line : ℤ
  runDesc : Option (List UInt8)
  state : ThddogState
  data : Option ℕ
  deriving DecidableEq

/-- `thddogs_list` and `thddogs_cnt` -/
structure Thddogs where
  list : List Thddog
  cnt : ℤ
  deriving DecidableEq

/-- A `long` of 32 bits. -/
def toLong (x : ℤ) : ℤ := Int.bmod x 4294967296

/-- A value stored in `long over_sec:8`, which is signed. -/
def toOverSec (x : ℤ) : ℤ := Int.bmod x 256

/-- `threaddog_sec2tick`, with 1000 ticks a second. -/
def threaddogSec2tick (sec : ℤ) : ℤ := toLong (sec * 1000)

/-- `threaddog_tick`, `now` milliseconds after the counter was zero. -/
def threaddogTick (now : ℕ) : ℤ := toLong now

/-- A `thddog_t` of zeros. -/
def Thddog.zero : Thddog where
  name := []
  use := false
  isOver := false
  overSec := 0
  tickReg := 0
  tickFeed := 0
  func := none
  line := 0
  runDesc := none
  state := .running
  data := none

/-- `threaddog_init` -/
def threaddogInit : Thddogs where
  list := List.replicate threadDogNum Thddog.zero
  cnt := 0

/-- The dog that `threaddog_register` writes. -/
def Thddog.registered (now : ℕ) (threadName : List UInt8) (overSec : ℤ) (data : Option ℕ) : Thddog where
  name := threadName.take 12
  use := true
  isOver := false
  overSec := toOverSec (overSec % 256)
  tickReg := threaddogTick now
  tickFeed := threaddogTick now
  func := none
  line := -1
  runDesc := none
  state := .running
  data := data

/-- `threaddog_register`: the first slot that is not in use, if there is one. -/
def threaddogRegister (dogs : Thddogs) (now : ℕ) (threadName : List UInt8) (overSec : ℤ)
    (data : Option ℕ) : Option ℕ × Thddogs :=
  if dogs.list.findIdx (fun dog => !dog.use) < dogs.list.length then
    (some (dogs.list.findIdx fun dog => !dog.use),
      { list := dogs.list.set (dogs.list.findIdx fun dog => !dog.use)
          (.registered now threadName overSec data)
        cnt := dogs.cnt + 1 })
  else (none, dogs)

/-- The slot `i` is in use. -/
def Thddogs.inUse (dogs : Thddogs) (i : ℕ) : Bool := dogs.list[i]?.any Thddog.use

/-- `threaddog_unregister` of the dog in a slot, or of `NULL`. -/
def threaddogUnregister (dogs : Thddogs) : Option ℕ → Thddogs
  | none => dogs
  | some i =>
    if dogs.inUse i then
      { list := dogs.list.modify i fun dog => { dog with use := false }, cnt := dogs.cnt - 1 }
    else dogs

/-- What `threaddog_update` does with a dog. -/
def Thddog.update (now : ℕ) (func : Option (List UInt8)) (line : ℤ) (desc : Option (List UInt8))
    (state : ThddogState) (dog : Thddog) : Thddog :=
  if dog.use && !dog.isOver then
    { dog with
      tickFeed := threaddogTick now
      func := func
      line := line
      runDesc := desc.or dog.runDesc
      state := state }
  else dog

/-- `threaddog_update` -/
def threaddogUpdate (dogs : Thddogs) (now : ℕ) (dog : Option ℕ) (func : Option (List UInt8)) (line : ℤ)
    (desc : Option (List UInt8)) (state : ThddogState) : Thddogs :=
  match dog with
  | none => dogs
  | some i => { dogs with list := dogs.list.modify i (Thddog.update now func line desc state) }

/-- A check looks at the dog. -/
def Thddog.watched (dog : Thddog) : Bool :=
  dog.use && !dog.isOver && dog.state ≠ .suspend && dog.state ≠ .exit

/-- A counter that is behind the last feed has wrapped around. -/
def Thddog.wrapped (tick : ℤ) (dog : Thddog) : Thddog :=
  if tick < dog.tickFeed then { dog with tickFeed := 0 } else dog

/-- The test of `threaddog_check`. -/
def Thddog.isDead (tick : ℤ) (dog : Thddog) : Bool :=
  decide (tick ≥ threaddogSec2tick dog.overSec) &&
    decide (toLong (tick - dog.tickFeed) > threaddogSec2tick dog.overSec)

/-- The loop of `threaddog_check`: the dogs behind it, and the data it returns from inside. -/
def checkDogs (tick : ℤ) : List Thddog → List Thddog × Option (Option ℕ)
  | [] => ([], none)
  | dog :: dogs =>
    if dog.watched then
      if (dog.wrapped tick).isDead tick then
        ({ dog.wrapped tick with isOver := true, state := .die } :: dogs, some dog.data)
      else (dog.wrapped tick :: (checkDogs tick dogs).1, (checkDogs tick dogs).2)
    else (dog :: (checkDogs tick dogs).1, (checkDogs tick dogs).2)

/-- `threaddog_check` -/
def threaddogCheck (dogs : Thddogs) (now : ℕ) : Option ℕ × Thddogs :=
  ((checkDogs (threaddogTick now) dogs.list).2.join,
    { dogs with list := (checkDogs (threaddogTick now) dogs.list).1 })

/-- A call at a time. A dog is given as its slot, or `NULL`. -/
inductive DogCall where
  | register (threadName : List UInt8) (overSec : ℤ) (data : Option ℕ)
  | unregister (dog : Option ℕ)
  | update (dog : Option ℕ) (func : Option (List UInt8)) (line : ℤ) (desc : Option (List UInt8))
      (state : ThddogState)
  | check

/-- The table after a call. -/
def dogsStep (dogs : Thddogs) (now : ℕ) : DogCall → Thddogs
  | .register threadName overSec data => (threaddogRegister dogs now threadName overSec data).2
  | .unregister dog => threaddogUnregister dogs dog
  | .update dog func line desc state => threaddogUpdate dogs now dog func line desc state
  | .check => (threaddogCheck dogs now).2

/-- The table, and for each slot the seconds it was registered with last and the time it was
registered or fed last. -/
structure DogsLived where
  dogs : Thddogs
  asked : ℕ → ℤ
  fed : ℕ → ℕ

/-- The slot that a call feeds or registers. -/
def fedSlot (dogs : Thddogs) (now : ℕ) : DogCall → Option ℕ
  | .register threadName overSec data => (threaddogRegister dogs now threadName overSec data).1
  | .unregister _ => none
  | .update dog _ _ _ _ => dog
  | .check => none

/-- What comes of one call more. -/
def dogsLivedStep (s : DogsLived) (c : ℕ × DogCall) : DogsLived where
  dogs := dogsStep s.dogs c.1 c.2
  asked i :=
    match c.2 with
    | .register threadName overSec data =>
      if (threaddogRegister s.dogs c.1 threadName overSec data).1 = some i then overSec else s.asked i
    | _ => s.asked i
  fed i := if fedSlot s.dogs c.1 c.2 = some i then c.1 else s.fed i

/-- What comes of a run from the empty table. -/
def dogsLived (calls : List (ℕ × DogCall)) : DogsLived :=
  calls.foldl dogsLivedStep ⟨threaddogInit, fun _ => 0, fun _ => 0⟩

/-- The dog in the slot `i` was fed within its registered seconds, or registered. -/
def DogsLived.fedWithin (s : DogsLived) (now i : ℕ) : Prop := (now : ℤ) ≤ s.fed i + s.asked i * 1000

/-- The slots in use are counted. -/
def Thddogs.Counted (dogs : Thddogs) : Prop := dogs.cnt = (dogs.list.countP Thddog.use : ℕ)

/-- What a call gives: the number of dogs is that of the slots in use; a check reports no dog that
was fed within its seconds, and if it returns `NULL` every running dog not reported before was. -/
structure DogsRight (s : DogsLived) (c : ℕ × DogCall) : Prop where
  cnt : (dogsStep s.dogs c.1 c.2).Counted
  reported : c.2 = .check → ∀ i dog dog', s.dogs.list[i]? = some dog →
    (threaddogCheck s.dogs c.1).2.list[i]? = some dog' → dog.isOver = false → dog'.isOver = true →
    ¬ s.fedWithin c.1 i
  null : c.2 = .check → (threaddogCheck s.dogs c.1).1 = none → ∀ i dog, s.dogs.list[i]? = some dog →
    dog.use = true → dog.isOver = false → dog.state = .running → s.fedWithin c.1 i

/-- Time does not go back, and the registered seconds are positive numbers of an `int`. -/
structure DogCalls (calls : List (ℕ × DogCall)) : Prop where
  time : calls.Pairwise fun c c' => c.1 ≤ c'.1
  positive : ∀ c ∈ calls, ∀ threadName overSec data, c.2 = .register threadName overSec data →
    0 < overSec ∧ overSec ≤ 2147483647

/-- What the code relies on: a dog is registered with data and 127 seconds at most; when a check finds
a dog not fed within its seconds, the counter is at least that time, and the feed less than half the
range of the counter ago. -/
structure DogsMet (s : DogsLived) (c : ℕ × DogCall) : Prop where
  register : ∀ threadName overSec data, c.2 = .register threadName overSec data →
    overSec ≤ 127 ∧ data ≠ none
  check : c.2 = .check → ∀ i dog, s.dogs.list[i]? = some dog → dog.watched = true →
    ¬ s.fedWithin c.1 i →
    s.asked i * 1000 ≤ threaddogTick c.1 ∧ c.1 < s.fed i + 2147483648

/-- The number that a `long` keeps. -/
theorem toLong_def (x : ℤ) : toLong x =
    if x % 4294967296 < 2147483648 then x % 4294967296 else x % 4294967296 - 4294967296 := by
  rw [toLong, Int.bmod_def]
  rfl

/-- The counter, from the time. -/
theorem threaddogTick_eq (now : ℕ) : threaddogTick now =
    if (now : ℤ) % 4294967296 < 2147483648 then (now : ℤ) % 4294967296
    else (now : ℤ) % 4294967296 - 4294967296 := toLong_def now

/-- A number of a `long`. -/
theorem toLong_eq {x : ℤ} (hlo : -2147483648 ≤ x) (hhi : x < 2147483648) : toLong x = x :=
  Int.bmod_eq_of_le (by omega) (by omega)

/-- Up to 127 seconds are kept. -/
theorem toOverSec_eq {x : ℤ} (hlo : 0 < x) (hhi : x ≤ 127) : toOverSec (x % 256) = x := by
  rw [Int.emod_eq_of_lt (by omega) (by omega)]
  exact Int.bmod_eq_of_le (by omega) (by omega)

/-- The tick of a feed, or zero once the counter was seen behind it. -/
def FeedTick (now fed : ℕ) (tickFeed : ℤ) : Prop :=
  tickFeed = threaddogTick fed ∨
    tickFeed = 0 ∧ ∃ t, fed ≤ t ∧ t ≤ now ∧ threaddogTick t < threaddogTick fed

/-- What the table says of a dog that is not reported. -/
structure DogInv (now : ℕ) (asked : ℤ) (fed : ℕ) (dog : Thddog) : Prop where
  overSec : dog.overSec = asked
  positive : 0 < asked
  fits : asked ≤ 127
  data : dog.data ≠ none
  before : fed ≤ now
  tick : FeedTick now fed dog.tickFeed

/-- The dogs in use that are not reported are as they were registered and fed. -/
def DogsInv (now : ℕ) (s : DogsLived) : Prop :=
  ∀ i dog, s.dogs.list[i]? = some dog → dog.use = true → dog.isOver = false →
    DogInv now (s.asked i) (s.fed i) dog

/-- A dog that is looked at is in use and not reported. -/
theorem Thddog.watched_iff (dog : Thddog) :
    dog.watched = true ↔
      dog.use = true ∧ dog.isOver = false ∧ dog.state ≠ .suspend ∧ dog.state ≠ .exit := by
  simp [Thddog.watched, and_assoc]

/-- Only the feed tick of a dog changes when the counter has wrapped around. -/
theorem Thddog.wrapped_eq (tick : ℤ) (dog : Thddog) :
    ∃ feed, dog.wrapped tick = { dog with tickFeed := feed } := by
  unfold Thddog.wrapped
  split
  · exact ⟨0, rfl⟩
  · exact ⟨dog.tickFeed, rfl⟩

section Ticks

variable {now fed : ℕ} {asked : ℤ} {dog : Thddog}

/-- The feed tick stays right as time goes on. -/
theorem FeedTick.mono {now' : ℕ} {tickFeed : ℤ} (h : FeedTick now fed tickFeed) (hle : now ≤ now') :
    FeedTick now' fed tickFeed :=
  h.imp_right fun ⟨hzero, t, hfed, ht, hlt⟩ => ⟨hzero, t, hfed, Nat.le_trans ht hle, hlt⟩

/-- The feed tick stays right when a check sees that the counter has wrapped around. -/
theorem FeedTick.wrapped (h : FeedTick now fed dog.tickFeed) (hfed : fed ≤ now) :
    FeedTick now fed (dog.wrapped (threaddogTick now)).tickFeed := by
  unfold Thddog.wrapped
  split
  · next hlt =>
    refine .inr ⟨rfl, ?_⟩
    rcases h with h | ⟨-, h⟩
    · rw [h] at hlt
      exact ⟨now, hfed, Nat.le_refl now, hlt⟩
    · exact h
  · exact h

/-- A dog whose seconds are kept is over when the counter is at least its ticks, and so many ticks
behind the feed tick. -/
theorem DogInv.isDead_iff (h : DogInv now asked fed dog) (tick : ℤ) :
    (dog.wrapped tick).isDead tick = true ↔
      asked * 1000 ≤ tick ∧ asked * 1000 < toLong (tick - (dog.wrapped tick).tickFeed) := by
  obtain ⟨feed, hfeed⟩ := dog.wrapped_eq tick
  have hpos := h.positive
  have hfits := h.fits
  have hticks : threaddogSec2tick dog.overSec = asked * 1000 := by
    rw [threaddogSec2tick, h.overSec]
    exact toLong_eq (by omega) (by omega)
  rw [hfeed]
  simp only [Thddog.isDead, Bool.and_eq_true, decide_eq_true_eq, ge_iff_le, gt_iff_lt, hticks]

/-- A dog that was fed within its seconds is not over. -/
theorem DogInv.not_dead (h : DogInv now asked fed dog) (hwithin : (now : ℤ) ≤ fed + asked * 1000) :
    (dog.wrapped (threaddogTick now)).isDead (threaddogTick now) = false := by
  have hpos := h.positive
  have hfits := h.fits
  have hfed := h.before
  rw [← Bool.not_eq_true, h.isDead_iff]
  rintro ⟨hticks, hfar⟩
  rcases h.tick.wrapped hfed with heq | ⟨-, t, ht, hnow, hlt⟩
  · -- between the feed and now the counter has not wrapped around, or it is negative now
    rw [heq] at hfar
    simp only [threaddogTick_eq, toLong_def] at hticks hfar
    omega
  · -- it has wrapped around before `t`, and is still negative
    simp only [threaddogTick_eq] at hticks hlt
    omega

/-- A dog that was not fed for longer is over, when the counter is at least its ticks and the feed
less than half the range of the counter ago. -/
theorem DogInv.dead (h : DogInv now asked fed dog) (hlong : fed + asked * 1000 < (now : ℤ))
    (hticks : asked * 1000 ≤ threaddogTick now) (hnear : now < fed + 2147483648) :
    (dog.wrapped (threaddogTick now)).isDead (threaddogTick now) = true := by
  have hpos := h.positive
  have hfits := h.fits
  have hfed := h.before
  refine (h.isDead_iff _).mpr ⟨hticks, ?_⟩
  rcases h.tick.wrapped hfed with heq | ⟨-, t, ht, hnow, hlt⟩
  · rw [heq]
    simp only [threaddogTick_eq, toLong_def] at hticks ⊢
    omega
  · -- half the range after it wrapped around the counter is still negative
    simp only [threaddogTick_eq] at hticks hlt
    omega

end Ticks

/-- What a check does with a dog: nothing, or it looks at it, and may find it over. -/
inductive CheckedDog (tick : ℤ) (dog : Thddog) : Thddog → Prop
  | kept : CheckedDog tick dog dog
  | fed (hwatched : dog.watched = true) : CheckedDog tick dog (dog.wrapped tick)
  | dead (hwatched : dog.watched = true) (hdead : (dog.wrapped tick).isDead tick = true) :
      CheckedDog tick dog { dog.wrapped tick with isOver := true, state := .die }

/-- A check does one of these with each dog. -/
theorem checkDogs_forall₂ (tick : ℤ) (dogs : List Thddog) :
    List.Forall₂ (CheckedDog tick) dogs (checkDogs tick dogs).1 := by
  induction dogs with
  | nil => exact .nil
  | cons dog dogs ih =>
    rw [checkDogs]
    split
    · next hwatched =>
      split
      · next hdead => exact .cons (.dead hwatched hdead) (List.forall₂_same.mpr fun _ _ => .kept)
      · exact .cons (.fed hwatched) ih
    · exact .cons .kept ih

/-- A check that returns from its loop returns the data of a dog it looked at; one that does not has
found no dog that is over. -/
theorem checkDogs_snd (tick : ℤ) (dogs : List Thddog) :
    (∀ data, (checkDogs tick dogs).2 = some data →
      ∃ dog ∈ dogs, dog.watched = true ∧ dog.data = data) ∧
    ((checkDogs tick dogs).2 = none →
      ∀ dog ∈ dogs, dog.watched = true → (dog.wrapped tick).isDead tick = false) := by
  induction dogs with
  | nil => exact ⟨fun _ h => (by cases h), fun _ _ h => absurd h List.not_mem_nil⟩
  | cons dog dogs ih =>
    have hrest : ∀ data, (checkDogs tick dogs).2 = some data →
        ∃ dog' ∈ dog :: dogs, dog'.watched = true ∧ dog'.data = data := fun data h =>
      let ⟨dog', hdog, hwatched⟩ := ih.1 data h
      ⟨dog', List.mem_cons_of_mem _ hdog, hwatched⟩
    rw [checkDogs]
    split
    · next hwatched =>
      split
      · refine ⟨fun data h => ?_, fun h => by cases h⟩
        exact ⟨dog, List.mem_cons_self, hwatched, Option.some.inj h⟩
      · next hdead =>
        refine ⟨hrest, fun h dog' hdog hdog' => ?_⟩
        rcases List.mem_cons.mp hdog with rfl | hdog
        · exact Bool.eq_false_iff.mpr hdead
        · exact ih.2 h dog' hdog hdog'
    · next hwatched =>
      refine ⟨hrest, fun h dog' hdog hdog' => ?_⟩
      rcases List.mem_cons.mp hdog with rfl | hdog
      · exact absurd hdog' hwatched
      · exact ih.2 h dog' hdog hdog'

/-- A check leaves a dog in use or not. -/
theorem CheckedDog.use_eq {tick : ℤ} {dog dog' : Thddog} (h : CheckedDog tick dog dog') :
    dog'.use = dog.use := by
  obtain ⟨feed, hfeed⟩ := dog.wrapped_eq tick
  cases h with
  | kept => rfl
  | fed => rw [hfeed]
  | dead => rw [hfeed]

/-- A check leaves the dogs in use. -/
theorem checkDogs_use (tick : ℤ) (dogs : List Thddog) :
    (checkDogs tick dogs).1.map Thddog.use = dogs.map Thddog.use := by
  generalize (checkDogs tick dogs).1 = dogs', checkDogs_forall₂ tick dogs = h
  induction h with
  | nil => rfl
  | cons hdog _ ih => rw [List.map_cons, List.map_cons, hdog.use_eq, ih]

/-- A dog behind a check comes from the one in its slot. -/
theorem checked_of_getElem? {tick : ℤ} {dogs : List Thddog} {i : ℕ} {dog' : Thddog}
    (h : (checkDogs tick dogs).1[i]? = some dog') :
    ∃ dog, dogs[i]? = some dog ∧ CheckedDog tick dog dog' := by
  have hall := checkDogs_forall₂ tick dogs
  have hlt : i < dogs.length := by
    rw [hall.length_eq]
    exact (List.getElem?_eq_some_iff.mp h).1
  refine ⟨dogs[i], List.getElem?_eq_getElem hlt, ?_⟩
  obtain ⟨hlt', rfl⟩ := List.getElem?_eq_some_iff.mp h
  exact hall.get hlt hlt'

/-- A change of one dog changes the number in use by its own. -/
theorem countP_modify_use (dogs : List Thddog) (i : ℕ) (f : Thddog → Thddog) :
    ((dogs.modify i f).countP Thddog.use : ℤ) = dogs.countP Thddog.use
      - (if (dogs[i]?.any Thddog.use) then 1 else 0)
      + (if (dogs[i]?.any fun dog => (f dog).use) then 1 else 0) := by
  induction dogs generalizing i with
  | nil => simp
  | cons dog dogs ih =>
    cases i with
    | zero =>
      simp only [List.modify_zero_cons, List.countP_cons, List.getElem?_cons_zero, Option.any_some]
      split <;> split <;> simp
    | succ i =>
      simp only [List.modify_succ_cons, List.countP_cons, List.getElem?_cons_succ]
      have h := ih i
      push_cast
      omega

/-- Feeding a dog leaves it in use or not. -/
theorem Thddog.update_use (now : ℕ) (func : Option (List UInt8)) (line : ℤ)
    (desc : Option (List UInt8)) (state : ThddogState) (dog : Thddog) :
    (dog.update now func line desc state).use = dog.use := by
  unfold Thddog.update
  split <;> rfl

/-- A registration takes a slot that was not in use. -/
theorem threaddogRegister_eq (dogs : Thddogs) (now : ℕ) (threadName : List UInt8) (overSec : ℤ)
    (data : Option ℕ) :
    threaddogRegister dogs now threadName overSec data = (none, dogs) ∨
      ∃ i dog, dogs.list[i]? = some dog ∧ dog.use = false ∧
        threaddogRegister dogs now threadName overSec data =
          (some i, { list := dogs.list.modify i fun _ => .registered now threadName overSec data
                     cnt := dogs.cnt + 1 }) := by
  unfold threaddogRegister
  split
  · next hlt =>
    refine .inr ⟨_, _, List.getElem?_eq_getElem hlt, ?_, ?_⟩
    · simpa using List.findIdx_getElem (w := hlt)
    · rw [List.set_eq_modify]
  · exact .inl rfl

/-- A call leaves the slots in use counted. -/
theorem Thddogs.Counted.step {dogs : Thddogs} (h : dogs.Counted) (now : ℕ) (call : DogCall) :
    (dogsStep dogs now call).Counted := by
  unfold Thddogs.Counted at h ⊢
  cases call with
  | register threadName overSec data =>
    rw [dogsStep]
    rcases threaddogRegister_eq dogs now threadName overSec data with heq | ⟨i, dog, hdog, huse, heq⟩
    · rwa [heq]
    · rw [heq]
      simp [countP_modify_use, hdog, huse, Thddog.registered, h]
  | unregister dog =>
    cases dog with
    | none => exact h
    | some i =>
      simp only [dogsStep, threaddogUnregister]
      split
      · next huse =>
        rw [countP_modify_use, ← Thddogs.inUse, huse, h]
        simp
      · exact h
  | update dog func line desc state =>
    cases dog with
    | none => exact h
    | some i =>
      simp only [dogsStep, threaddogUpdate]
      have huse : (fun dog => (Thddog.update now func line desc state dog).use) = Thddog.use :=
        funext (Thddog.update_use now func line desc state)
      rw [countP_modify_use, huse, h]
      omega
  | check =>
    have huse := congrArg (List.countP id) (checkDogs_use (threaddogTick now) dogs.list)
    rw [List.countP_map, List.countP_map] at huse
    exact h.trans (congrArg Nat.cast huse.symm)

/-- In every run the slots in use are counted. -/
theorem dogsLived_counted (calls : List (ℕ × DogCall)) : (dogsLived calls).dogs.Counted := by
  induction calls using List.reverseRecOn with
  | nil =>
    change (0 : ℤ) = ((List.replicate threadDogNum Thddog.zero).countP Thddog.use : ℕ)
    rw [List.countP_replicate]
    rfl
  | append_singleton calls c ih =>
    rw [dogsLived, List.foldl_append]
    exact ih.step c.1 c.2

/-- A slot that a call neither feeds nor registers holds the dog it had, or one that is not in use,
or what a check left. -/
theorem dogsStep_other {dogs : Thddogs} {now i : ℕ} {call : DogCall} {dog' : Thddog}
    (hfed : fedSlot dogs now call ≠ some i) (h : (dogsStep dogs now call).list[i]? = some dog') :
    dog'.use = false ∨ ∃ dog, dogs.list[i]? = some dog ∧ CheckedDog (threaddogTick now) dog dog' := by
  cases call with
  | register threadName overSec data =>
    rw [fedSlot] at hfed
    rw [dogsStep] at h
    rcases threaddogRegister_eq dogs now threadName overSec data with heq | ⟨j, dog, hdog, huse, heq⟩
    · rw [heq] at h
      exact .inr ⟨dog', h, .kept⟩
    · rw [heq] at h hfed
      rw [List.getElem?_modify_ne _ _ fun hij => hfed (congrArg some hij)] at h
      exact .inr ⟨dog', h, .kept⟩
  | unregister dog =>
    cases dog with
    | none => exact .inr ⟨dog', h, .kept⟩
    | some j =>
      simp only [dogsStep, threaddogUnregister] at h
      split at h
      · by_cases hij : j = i
        · subst hij
          rw [List.getElem?_modify_eq] at h
          obtain ⟨dog, -, rfl⟩ := Option.map_eq_some_iff.mp h
          exact .inl rfl
        · rw [List.getElem?_modify_ne _ _ hij] at h
          exact .inr ⟨dog', h, .kept⟩
      · exact .inr ⟨dog', h, .kept⟩
  | update dog func line desc state =>
    rw [fedSlot] at hfed
    cases dog with
    | none => exact .inr ⟨dog', h, .kept⟩
    | some j =>
      simp only [dogsStep, threaddogUpdate] at h
      rw [List.getElem?_modify_ne _ _ fun hij => hfed (congrArg some hij)] at h
      exact .inr ⟨dog', h, .kept⟩
  | check => exact .inr (checked_of_getElem? h)

/-- A check leaves what the table says of a dog right. -/
theorem DogInv.checked {now : ℕ} {asked : ℤ} {fed : ℕ} {dog dog' : Thddog}
    (h : DogInv now asked fed dog) (hchecked : CheckedDog (threaddogTick now) dog dog')
    (hover : dog'.isOver = false) : DogInv now asked fed dog' := by
  cases hchecked with
  | kept => exact h
  | fed =>
    have htick := h.tick.wrapped h.before
    obtain ⟨feed, hfeed⟩ := dog.wrapped_eq (threaddogTick now)
    rw [hfeed] at htick ⊢
    exact ⟨h.overSec, h.positive, h.fits, h.data, h.before, htick⟩
  | dead => exact absurd hover (by simp)

/-- A check leaves a reported dog reported. -/
theorem CheckedDog.isOver_of {tick : ℤ} {dog dog' : Thddog} (h : CheckedDog tick dog dog')
    (hover : dog'.isOver = false) : dog.isOver = false := by
  obtain ⟨feed, hfeed⟩ := dog.wrapped_eq tick
  cases h with
  | kept => exact hover
  | fed =>
    rw [hfeed] at hover
    exact hover
  | dead => exact absurd hover (by simp)

/-- What the table says of a dog stays right as time goes on. -/
theorem DogInv.mono {now now' : ℕ} {asked : ℤ} {fed : ℕ} {dog : Thddog} (h : DogInv now asked fed dog)
    (hle : now ≤ now') : DogInv now' asked fed dog :=
  ⟨h.overSec, h.positive, h.fits, h.data, Nat.le_trans h.before hle, h.tick.mono hle⟩

/-- A dog that is registered for 127 seconds at most, with data. -/
theorem DogInv.registered (now : ℕ) (threadName : List UInt8) {overSec : ℤ} {data : Option ℕ}
    (hpos : 0 < overSec) (hfits : overSec ≤ 127) (hdata : data ≠ none) :
    DogInv now overSec now (.registered now threadName overSec data) where
  overSec := toOverSec_eq hpos hfits
  positive := hpos
  fits := hfits
  data := hdata
  before := Nat.le_refl now
  tick := .inl (by rw [Thddog.registered])

/-- A dog that is fed. -/
theorem DogInv.update {now now' : ℕ} {asked : ℤ} {fed : ℕ} {dog : Thddog}
    (h : DogInv now asked fed dog) (huse : dog.use = true) (hover : dog.isOver = false)
    (func : Option (List UInt8)) (line : ℤ) (desc : Option (List UInt8)) (state : ThddogState) :
    DogInv now' asked now' (dog.update now' func line desc state) := by
  have hfeeds : (dog.use && !dog.isOver) = true := by rw [huse, hover]; rfl
  rw [Thddog.update, if_pos hfeeds]
  exact ⟨h.overSec, h.positive, h.fits, h.data, Nat.le_refl now', .inl (by dsimp only)⟩

/-- A fed dog was as unreported as it is. -/
theorem Thddog.update_isOver (now : ℕ) (func : Option (List UInt8)) (line : ℤ)
    (desc : Option (List UInt8)) (state : ThddogState) (dog : Thddog) :
    (dog.update now func line desc state).isOver = dog.isOver := by
  unfold Thddog.update
  split <;> rfl

/-- A call that meets the conditions keeps what the table says of the dogs. -/
theorem DogsInv.step {now₀ now : ℕ} {s : DogsLived} {call : DogCall} (h : DogsInv now₀ s)
    (hle : now₀ ≤ now)
    (hpos : ∀ threadName overSec data, call = .register threadName overSec data → 0 < overSec)
    (hmet : ∀ threadName overSec data, call = .register threadName overSec data →
      overSec ≤ 127 ∧ data ≠ none) :
    DogsInv now (dogsLivedStep s (now, call)) := by
  intro i dog' hdog' huse hover
  by_cases hfed : fedSlot s.dogs now call = some i
  · simp only [dogsLivedStep, if_pos hfed] at hdog' ⊢
    cases call with
    | register threadName overSec data =>
      obtain ⟨hfits, hdata⟩ := hmet threadName overSec data rfl
      rw [fedSlot] at hfed
      rw [dogsStep] at hdog'
      simp only [if_pos hfed]
      rcases threaddogRegister_eq s.dogs now threadName overSec data with
        heq | ⟨j, dog, hdog, -, heq⟩
      · rw [heq] at hfed
        cases hfed
      · rw [heq] at hfed hdog'
        obtain rfl : j = i := Option.some.inj hfed
        rw [List.getElem?_modify_eq, hdog] at hdog'
        obtain rfl := Option.some.inj hdog'
        exact .registered now threadName (hpos threadName overSec data rfl) hfits hdata
    | unregister dog => cases hfed
    | update dog func line desc state =>
      obtain rfl : dog = some i := hfed
      simp only [dogsStep, threaddogUpdate, List.getElem?_modify_eq] at hdog'
      obtain ⟨dog, hdog, rfl⟩ := Option.map_eq_some_iff.mp hdog'
      rw [Thddog.update_use] at huse
      rw [Thddog.update_isOver] at hover
      exact (h i dog hdog huse hover).update huse hover func line desc state
    | check => cases hfed
  · -- a slot that is not fed has the registration and the feed that it had
    have hasked : (dogsLivedStep s (now, call)).asked i = s.asked i := by
      cases call with
      | register => exact if_neg hfed
      | unregister => rfl
      | update => rfl
      | check => rfl
    rw [hasked]
    simp only [dogsLivedStep, if_neg hfed] at hdog' ⊢
    rcases dogsStep_other hfed hdog' with hunused | ⟨dog, hdog, hchecked⟩
    · rw [hunused] at huse
      cases huse
    · rw [hchecked.use_eq] at huse
      exact ((h i dog hdog huse (hchecked.isOver_of hover)).mono hle).checked hchecked hover

/-- A check that finds the table right reports no dog that was fed within its seconds. -/
theorem DogsInv.reported {now : ℕ} {s : DogsLived} (h : DogsInv now s) {i : ℕ} {dog dog' : Thddog}
    (hdog : s.dogs.list[i]? = some dog) (hdog' : (threaddogCheck s.dogs now).2.list[i]? = some dog')
    (hover : dog.isOver = false) (hover' : dog'.isOver = true) : ¬ s.fedWithin now i := by
  obtain ⟨dog₀, hdog₀, hchecked⟩ := checked_of_getElem? hdog'
  obtain rfl : dog = dog₀ := Option.some.inj (hdog.symm.trans hdog₀)
  obtain ⟨feed, hfeed⟩ := dog.wrapped_eq (threaddogTick now)
  cases hchecked with
  | kept => exact absurd hover' (by rw [hover]; simp)
  | fed =>
    rw [hfeed] at hover'
    exact absurd hover' (by simp [hover])
  | dead hwatched hdead =>
    intro hwithin
    rw [(h i dog hdog (dog.watched_iff.mp hwatched).1 hover).not_dead hwithin] at hdead
    cases hdead

/-- A check that finds the table right and returns `NULL` has found no dog over. -/
theorem DogsInv.null {now : ℕ} {s : DogsLived} (h : DogsInv now s)
    (hnull : (threaddogCheck s.dogs now).1 = none) {i : ℕ} {dog : Thddog}
    (hdog : s.dogs.list[i]? = some dog) (hwatched : dog.watched = true) :
    (dog.wrapped (threaddogTick now)).isDead (threaddogTick now) = false := by
  have hsnd := checkDogs_snd (threaddogTick now) s.dogs.list
  rw [threaddogCheck] at hnull
  rcases Option.join_eq_none_iff.mp hnull with hnone | hnone
  · exact hsnd.2 hnone dog (List.mem_of_getElem? hdog) hwatched
  · -- the data of a dog in the table is not `NULL`
    obtain ⟨dog', hmem, hwatched', hdata⟩ := hsnd.1 none hnone
    obtain ⟨j, hj⟩ := List.getElem?_of_mem hmem
    have hdog' := dog'.watched_iff.mp hwatched'
    exact absurd hdata (h j dog' hj hdog'.1 hdog'.2.1).data

/-- The table stays right as time goes on. -/
theorem DogsInv.mono {now now' : ℕ} {s : DogsLived} (h : DogsInv now s) (hle : now ≤ now') :
    DogsInv now' s :=
  fun i dog hdog huse hover => (h i dog hdog huse hover).mono hle

/-- The calls before the last. -/
theorem DogCalls.init {calls : List (ℕ × DogCall)} {c : ℕ × DogCall} (h : DogCalls (calls ++ [c])) :
    DogCalls calls ∧ ∀ c' ∈ calls, c'.1 ≤ c.1 := by
  obtain ⟨htime, -, hlast⟩ := List.pairwise_append.mp h.time
  exact ⟨⟨htime, fun c' hc => h.positive c' (List.mem_append_left _ hc)⟩,
    fun c' hc => hlast c' hc c List.mem_cons_self⟩

/-- In a run whose calls all meet the conditions the table is right. -/
theorem dogsLived_inv {calls : List (ℕ × DogCall)} (hcalls : DogCalls calls)
    (hmet : ∀ pre c suf, calls = pre ++ c :: suf → DogsMet (dogsLived pre) c) {now : ℕ}
    (hnow : ∀ c ∈ calls, c.1 ≤ now) : DogsInv now (dogsLived calls) := by
  induction calls using List.reverseRecOn generalizing now with
  | nil =>
    intro i dog hdog huse
    have hmem := List.mem_of_getElem? hdog
    rw [List.eq_of_mem_replicate hmem] at huse
    cases huse
  | append_singleton calls c ih =>
    have hinv : DogsInv c.1 (dogsLived calls) :=
      ih hcalls.init.1 (fun pre c' suf heq => hmet pre c' (suf ++ [c]) (by simp [heq]))
        hcalls.init.2
    have hc : c ∈ calls ++ [c] := List.mem_append_right _ List.mem_cons_self
    rw [dogsLived, List.foldl_append]
    exact (hinv.step (Nat.le_refl c.1)
      (fun threadName overSec data heq => (hcalls.positive c hc threadName overSec data heq).1)
      (hmet calls c [] rfl).register).mono (hnow c hc)

/-- In every run the slots in use are counted. In a run whose calls all meet the conditions, a check
reports no dog that was fed within its seconds, and returns `NULL` only when no running dog that is
not reported was left unfed for longer. -/
theorem threaddog_runs (calls : List (ℕ × DogCall)) (c : ℕ × DogCall)
    (hcalls : DogCalls (calls ++ [c])) :
    (dogsStep (dogsLived calls).dogs c.1 c.2).Counted ∧
      ((∀ pre c' suf, calls ++ [c] = pre ++ c' :: suf → DogsMet (dogsLived pre) c') →
        DogsRight (dogsLived calls) c) := by
  have hcnt := (dogsLived_counted calls).step c.1 c.2
  refine ⟨hcnt, fun hmet => ?_⟩
  have hinv : DogsInv c.1 (dogsLived calls) := dogsLived_inv hcalls.init.1
    (fun pre c' suf heq => hmet pre c' (suf ++ [c]) (by simp [heq])) hcalls.init.2
  refine ⟨hcnt, fun _ i dog dog' hdog hdog' => hinv.reported hdog hdog', ?_⟩
  intro hcheck hnull i dog hdog huse hover hrunning
  have hwatched : dog.watched = true :=
    dog.watched_iff.mpr ⟨huse, hover, by rw [hrunning]; simp, by rw [hrunning]; simp⟩
  by_contra hlong
  obtain ⟨hticks, hnear⟩ := (hmet calls c [] rfl).check hcheck i dog hdog hwatched hlong
  have hdead := (hinv i dog hdog huse hover).dead (by simpa [DogsLived.fedWithin] using hlong)
    hticks hnear
  rw [hinv.null hnull hdog hwatched] at hdead
  cases hdead

/-- A run with a dog that is fed and one more check. -/
def dogExampleCalls : List (ℕ × DogCall) := [(1000, .register [0x74] 60 (some 1))]

/-- A dog registered for 60 seconds is reported after 61. -/
theorem threaddog_runs_example : DogsRight (dogsLived dogExampleCalls) (62000, .check) := by
  refine (threaddog_runs dogExampleCalls (62000, .check) ⟨by decide, ?_⟩).2 ?_
  · intro c hc threadName overSec data heq
    rcases List.mem_cons.mp hc with rfl | hc
    · cases heq
      decide
    · obtain rfl := List.mem_singleton.mp hc
      cases heq
  · intro pre c' suf heq
    rcases List.cons_eq_append_iff.mp heq with ⟨rfl, heq⟩ | ⟨pre, rfl, heq⟩
    · obtain ⟨rfl, -⟩ := List.cons_eq_cons.mp heq
      refine ⟨fun threadName overSec data heq => ?_, fun hcheck => by cases hcheck⟩
      cases heq
      decide
    · obtain ⟨rfl, rfl⟩ : pre = [] ∧ c' = (62000, .check) := by
        have htail := (List.cons_eq_cons.mp heq).2
        rcases List.append_eq_singleton_iff.mp htail.symm with ⟨hpre, hc⟩ | ⟨-, hc⟩
        · exact ⟨hpre, (List.cons_eq_cons.mp hc).1⟩
        · cases hc
      refine ⟨fun threadName overSec data heq => (by cases heq), fun _ i dog hdog hwatched _ => ?_⟩
      have hlist : (dogsLived dogExampleCalls).dogs.list =
          threaddogInit.list.set 0 (.registered 1000 [0x74] 60 (some 1)) := by decide +kernel
      cases i with
      | zero => decide +kernel
      | succ i =>
        change (dogsLived dogExampleCalls).dogs.list[i + 1]? = some dog at hdog
        rw [hlist, List.getElem?_set_ne (Nat.zero_ne_add_one i)] at hdog
        rw [List.eq_of_mem_replicate (List.mem_of_getElem? hdog)] at hwatched
        cases hwatched

/-- A dog registered for 200 seconds is reported at once. -/
theorem threaddog_reports_fed :
    ¬ ∀ calls c, DogCalls (calls ++ [c]) → DogsRight (dogsLived calls) c := by
  intro h
  have hright := h [(1000, .register [0x74] 200 (some 1))] (1000, .check) ⟨by decide, ?_⟩
  · refine hright.reported rfl 0 (.registered 1000 [0x74] 200 (some 1))
      { Thddog.registered 1000 [0x74] 200 (some 1) with isOver := true, state := .die }
      (by decide +kernel) (by decide +kernel) rfl rfl ?_
    unfold DogsLived.fedWithin
    decide +kernel
  · intro c hc threadName overSec data heq
    rcases List.mem_cons.mp hc with rfl | hc
    · cases heq
      decide
    · obtain rfl := List.mem_singleton.mp hc
      cases heq

end DasEdge.Das
