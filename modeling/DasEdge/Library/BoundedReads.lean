import Mathlib.Data.List.Basic
import Mathlib.Data.List.GetD

/-!
# Reading within bounds

Loops over a memory that is a list: a read at a place behind its end gives nothing, and with it the
whole computation. When the loops get to the end of a text, which lies in the memory with a mark
behind it, they have read nothing behind the mark.
-/

namespace DasEdge.Library

variable {α : Type*} [DecidableEq α]

/-- `while (*p && test(*p)) p++` -/
def scanWhile (nul : α) (mem : List α) (test : α → Bool) : ℕ → ℕ → Option ℕ
  | 0, _ => none
  | fuel + 1, p => mem[p]?.bind fun c =>
    if c ≠ nul ∧ test c = true then scanWhile nul mem test fuel (p + 1) else some p

/-- `for (i = 0; i < n && test(p[i]); i++)` -/
def scanUpTo (mem : List α) (test : α → Bool) : ℕ → ℕ → Option ℕ
  | 0, p => some p
  | n + 1, p => mem[p]?.bind fun c => if test c = true then scanUpTo mem test n (p + 1) else some p

/-- `strncmp(p, s, strlen(s)) == 0` -/
def beginsAt (nul : α) (mem : List α) : List α → ℕ → Option Bool
  | [], _ => some true
  | c :: s, p => mem[p]?.bind fun d =>
    if d ≠ c then some false else if d = nul then some true else beginsAt nul mem s (p + 1)

/-- What a loop reads when the memory goes on with characters that pass the test and one that ends
it. -/
theorem scanWhile_of_drop {nul c : α} {mem run rest : List α} {test : α → Bool} {fuel p : ℕ}
    (hmem : mem.drop p = run ++ c :: rest) (hrun : ∀ d ∈ run, d ≠ nul ∧ test d = true)
    (hend : ¬ (c ≠ nul ∧ test c = true)) (hfuel : run.length < fuel) :
    scanWhile nul mem test fuel p = some (p + run.length) := by
  induction run generalizing fuel p with
  | nil =>
    obtain ⟨fuel, rfl⟩ := Nat.exists_eq_add_of_lt hfuel
    have hread : mem[p]? = some c := by
      rw [← Nat.add_zero p, ← List.getElem?_drop, hmem]
      rfl
    simp only [List.length_nil, Nat.zero_add, scanWhile, hread, Option.bind_some, if_neg hend,
      Nat.add_zero]
  | cons d run ih =>
    obtain ⟨fuel, rfl⟩ : ∃ k, fuel = k + 1 := ⟨fuel - 1, by omega⟩
    have hread : mem[p]? = some d := by
      rw [← Nat.add_zero p, ← List.getElem?_drop, hmem]
      rfl
    have hnext : mem.drop (p + 1) = run ++ c :: rest := by
      rw [← List.drop_drop, hmem]
      rfl
    rw [scanWhile, hread, Option.bind_some, if_pos (hrun d List.mem_cons_self),
      ih hnext (fun e he => hrun e (List.mem_cons_of_mem _ he)) (Nat.lt_of_succ_lt_succ hfuel),
      List.length_cons, Nat.add_assoc, Nat.add_comm 1]

section Strings

omit [DecidableEq α]

/-- A text with its mark is at a place of a memory. -/
structure MarkedAt (nul : α) (mem : List α) (p : ℕ) (text : List α) : Prop where
  unmarked : nul ∉ text
  stored : ∃ rest, mem.drop p = text ++ nul :: rest

variable {nul c : α} {mem text line rest : List α} {p q r : ℕ}

/-- The first character of a text. -/
theorem MarkedAt.read_cons (h : MarkedAt nul mem p (c :: text)) :
    mem[p]? = some c ∧ c ≠ nul ∧ MarkedAt nul mem (p + 1) text := by
  obtain ⟨rest, hmem⟩ := h.stored
  refine ⟨?_, fun heq => h.unmarked (heq ▸ List.mem_cons_self),
    fun hnul => h.unmarked (List.mem_cons_of_mem c hnul),
    rest, ?_⟩
  · rw [← Nat.add_zero p, ← List.getElem?_drop, hmem]
    rfl
  · rw [← List.drop_drop, hmem]
    rfl

/-- The mark of a text. -/
theorem MarkedAt.read_nil (h : MarkedAt nul mem p []) : mem[p]? = some nul := by
  obtain ⟨rest, hmem⟩ := h.stored
  rw [← Nat.add_zero p, ← List.getElem?_drop, hmem]
  rfl

/-- A text behind another one. -/
theorem MarkedAt.behind (h : MarkedAt nul mem p (line ++ text)) :
    MarkedAt nul mem (p + line.length) text := by
  obtain ⟨rest, hmem⟩ := h.stored
  refine ⟨fun hnul => h.unmarked (List.mem_append_right line hnul), rest, ?_⟩
  rw [← List.drop_drop, hmem, List.append_assoc, List.drop_left]

/-- A text with its mark is in the memory. -/
theorem MarkedAt.lt_length (h : MarkedAt nul mem p text) : p + text.length < mem.length := by
  obtain ⟨rest, hmem⟩ := h.stored
  have hlength := congrArg List.length hmem
  rw [List.length_drop, List.length_append, List.length_cons] at hlength
  omega

/-- A mark that is written elsewhere leaves a text. -/
theorem MarkedAt.set_other (h : MarkedAt nul mem q text) (hr : r < q ∨ q + text.length < r) :
    MarkedAt nul (mem.set r nul) q text := by
  obtain ⟨rest, hmem⟩ := h.stored
  refine ⟨h.unmarked, ?_⟩
  rw [List.drop_set]
  split
  · exact ⟨rest, hmem⟩
  · rw [hmem, List.set_append_right _ _ (by omega)]
    obtain ⟨k, hk⟩ : ∃ k, r - q - text.length = k + 1 := ⟨r - q - text.length - 1, by omega⟩
    rw [hk, List.set_cons_succ]
    exact ⟨_, rfl⟩

/-- A mark that is written into a text cuts it. -/
theorem MarkedAt.cut (h : MarkedAt nul mem p (line ++ c :: text)) :
    MarkedAt nul (mem.set (p + line.length) nul) p line ∧
      MarkedAt nul (mem.set (p + line.length) nul) (p + line.length + 1) text := by
  have hrest := (h.behind.read_cons).2.2
  obtain ⟨rest, hmem⟩ := h.stored
  refine ⟨⟨fun hnul => h.unmarked (List.mem_append_left _ hnul), text ++ nul :: rest, ?_⟩,
    hrest.set_other (.inl (Nat.lt_succ_self _))⟩
  rw [List.drop_set, if_neg (by omega), hmem, Nat.add_sub_cancel_left, List.append_assoc,
    List.set_append_right _ _ (Nat.le_refl _), Nat.sub_self]
  rfl

end Strings

/-- A loop over a text in a memory. -/
theorem MarkedAt.scanWhile_eq {nul : α} {mem text : List α} {p : ℕ} (h : MarkedAt nul mem p text)
    (test : α → Bool) {fuel : ℕ} (hfuel : text.length < fuel) :
    scanWhile nul mem test fuel p = some (p + (text.takeWhile test).length) := by
  obtain ⟨rest, hmem⟩ := h.stored
  have hrun : ∀ d ∈ text.takeWhile test, d ≠ nul ∧ test d = true := by
    intro d hd
    refine ⟨?_, List.all_eq_true.mp List.all_takeWhile d hd⟩
    rintro rfl
    exact h.unmarked ((List.takeWhile_prefix test).subset hd)
  have hlength := (List.takeWhile_prefix (l := text) test).length_le
  rw [← List.takeWhile_append_dropWhile (p := test) (l := text), List.append_assoc] at hmem
  cases hdrop : text.dropWhile test with
  | nil =>
    rw [hdrop] at hmem
    exact scanWhile_of_drop hmem hrun (fun h => h.1 rfl) (by omega)
  | cons c tail =>
    rw [hdrop] at hmem
    refine scanWhile_of_drop hmem hrun (fun h => ?_) (by omega)
    have hne : text.dropWhile test ≠ [] := by rw [hdrop]; simp
    have hhead := List.head_dropWhile_not test hne
    simp only [hdrop, List.head_cons, h.2] at hhead
    cases hhead

omit [DecidableEq α] in
/-- What is left behind a loop. -/
theorem drop_takeWhile_length (test : α → Bool) (l : List α) :
    l.drop (l.takeWhile test).length = l.dropWhile test := by
  have h : (l.takeWhile test ++ l.dropWhile test).drop (l.takeWhile test).length = l.dropWhile test :=
    List.drop_left' rfl
  rwa [List.takeWhile_append_dropWhile] at h

/-- A loop over a text that has no null stops no earlier for looking for one. -/
theorem takeWhile_ne_and {nul : α} (test : α → Bool) {l : List α} (h : nul ∉ l) :
    l.takeWhile (fun c => c ≠ nul && test c) = l.takeWhile test := by
  induction l with
  | nil => rfl
  | cons c l ih =>
    have hne : c ≠ nul := fun heq => h (heq ▸ List.mem_cons_self)
    simp only [List.takeWhile_cons, hne, ne_eq, not_false_eq_true, decide_true, Bool.true_and,
      ih fun hmem => h (List.mem_cons_of_mem _ hmem)]

section Text

variable {nul : α} {text : List α}

omit [DecidableEq α] in
/-- A read in a text or at its mark. -/
theorem getElem?_marked {p : ℕ} (hp : p ≤ text.length) :
    (text ++ [nul])[p]? = some (text.getD p nul) := by
  rcases Nat.lt_or_eq_of_le hp with hlt | rfl
  · rw [List.getElem?_append_left hlt, List.getElem?_eq_getElem hlt, List.getD_eq_getElem _ _ hlt]
  · rw [List.getElem?_append_right (Nat.le_refl _), Nat.sub_self,
      List.getD_eq_default _ _ (Nat.le_refl _)]
    rfl

omit [DecidableEq α] in
/-- A read behind the mark. -/
theorem getElem?_behind {p : ℕ} (hp : text.length < p) : (text ++ [nul])[p]? = none := by
  rw [List.getElem?_eq_none_iff, List.length_append]
  exact hp

omit [DecidableEq α] in
/-- A text is in the memory from any place on. -/
theorem markedAt_drop {p : ℕ} (hnul : nul ∉ text) (hp : p ≤ text.length) :
    MarkedAt nul (text ++ [nul]) p (text.drop p) :=
  ⟨fun hmem => hnul (List.mem_of_mem_drop hmem), [], List.drop_append_of_le_length hp⟩

/-- A loop over a text. -/
theorem scanWhile_text {test : α → Bool} {fuel p : ℕ} (hnul : nul ∉ text) (hp : p ≤ text.length)
    (hfuel : text.length < p + fuel) :
    scanWhile nul (text ++ [nul]) test fuel p =
      some (p + ((text.drop p).takeWhile test).length) :=
  (markedAt_drop hnul hp).scanWhile_eq test (by rw [List.length_drop]; omega)

omit [DecidableEq α] in
/-- A loop of at most `n` rounds over a text, whose test the mark does not pass, stays in the text. -/
theorem scanUpTo_text {test : α → Bool} (hmark : test nul = false) (n : ℕ) {p : ℕ}
    (hp : p ≤ text.length) :
    scanUpTo (text ++ [nul]) test n p = some (p + (((text.drop p).take n).takeWhile test).length) := by
  induction n generalizing p with
  | zero => rfl
  | succ n ih =>
    rw [scanUpTo, getElem?_marked hp, Option.bind_some]
    rcases Nat.lt_or_eq_of_le hp with hlt | rfl
    · rw [List.getD_eq_getElem _ _ hlt, List.drop_eq_getElem_cons hlt, List.take_succ_cons,
        List.takeWhile_cons]
      split
      · rw [ih hlt, List.length_cons, Nat.succ_eq_add_one, Nat.add_right_comm, Nat.add_assoc]
      · rfl
    · rw [List.getD_eq_default _ _ (Nat.le_refl _), hmark, List.drop_length]
      rfl

/-- A comparison with a text stays in the text. -/
theorem beginsAt_text (s : List α) {p : ℕ} (hp : p ≤ text.length) :
    ∃ b, beginsAt nul (text ++ [nul]) s p = some b := by
  induction s generalizing p with
  | nil => exact ⟨true, rfl⟩
  | cons c s ih =>
    rw [beginsAt, getElem?_marked hp, Option.bind_some]
    split
    · exact ⟨false, rfl⟩
    · split
      · exact ⟨true, rfl⟩
      · next hne =>
        refine ih (Nat.lt_of_le_of_ne hp ?_)
        rintro rfl
        exact hne (List.getD_eq_default _ _ (Nat.le_refl _))

end Text

end DasEdge.Library

/-!
# Readers of a memory

A reader gets the memory from its pointer on, and leaves the memory from where it stops on. A byte
that is not there, read or written, is a fault; a reader with loops may also have no fuel left.
-/

namespace DasEdge.Library

/-- What comes of reading: a value with the memory behind it, a text that is refused, a fault, or
that the fuel is spent. -/
inductive ReadResult (α : Type) where
  | ok (value : α) (rest : List UInt8)
  | fail
  | fault
  | spent
deriving DecidableEq

namespace ReadResult

variable {α β : Type}

/-- One reader after the other. -/
def bind : ReadResult α → (α → List UInt8 → ReadResult β) → ReadResult β
  | ok value rest, next => next value rest
  | fail, _ => fail
  | fault, _ => fault
  | spent, _ => spent

@[simp] theorem bind_ok (value : α) (rest : List UInt8) (next : α → List UInt8 → ReadResult β) :
    (ok value rest).bind next = next value rest := rfl

/-- The byte at a pointer. -/
def read (memory : List UInt8) (next : UInt8 → List UInt8 → ReadResult α) : ReadResult α :=
  match memory with
  | [] => fault
  | c :: rest => next c rest

@[simp] theorem read_cons (c : UInt8) (rest : List UInt8) (next : UInt8 → List UInt8 → ReadResult α) :
    read (c :: rest) next = next c rest := rfl

/-- The reader has stayed in the memory and has ended, and what it has read and left is as said. -/
def Keeps (P : α → List UInt8 → Prop) : ReadResult α → Prop
  | ok value rest => P value rest
  | fail => True
  | fault => False
  | spent => False

@[simp] theorem keeps_ok {P : α → List UInt8 → Prop} {value : α} {rest : List UInt8} :
    Keeps P (ok value rest) ↔ P value rest := Iff.rfl

@[simp] theorem keeps_fail {P : α → List UInt8 → Prop} : Keeps P fail := trivial

/-- Readers in sequence. -/
theorem Keeps.bind {P : α → List UInt8 → Prop} {Q : β → List UInt8 → Prop} {r : ReadResult α}
    {next : α → List UInt8 → ReadResult β} (h : r.Keeps P)
    (hnext : ∀ value rest, P value rest → (next value rest).Keeps Q) : (r.bind next).Keeps Q := by
  cases r with
  | ok value rest => exact hnext value rest h
  | fail => trivial
  | fault => exact h.elim
  | spent => exact h.elim

/-- Less can be said. -/
theorem Keeps.mono {P Q : α → List UInt8 → Prop} {r : ReadResult α} (h : r.Keeps P)
    (hle : ∀ value rest, P value rest → Q value rest) : r.Keeps Q := by
  cases r with
  | ok value rest => exact hle value rest h
  | fail => trivial
  | fault => exact h.elim
  | spent => exact h.elim

end ReadResult

end DasEdge.Library
