import DasEdge.Expression.EzCustomCalls
import DasEdge.Library.Interning
import Mathlib.Data.List.Dedup
import Mathlib.Data.List.Perm.Subperm
import Mathlib.Data.List.TakeWhile

/-!
# The registers of a script

`__parse_reg` gives a register the first slot whose stored name is the start of the text behind the
prefix, and looks at neither the end of the name nor the prefix. Two registers share a slot when the
name of one is the start of the name of another that comes later, whatever their prefixes. A register
behind which the text ends is an error.
-/

namespace DasEdge.Expression

open DasEdge.Library

/-- A character of a register behind its prefix. -/
def isRegChar (c : Char) : Bool := !(isSpace c || (isCharToken c).isSome)

/-- A prefix of registers. -/
def isRegPrefix (c : Char) : Bool := c = '$' || c = '@'

/-- The type of the registers with a prefix. -/
def regType (c : Char) : EzVtype := if c = '$' then .number else .string

/-- The prefix and the full name of the register at a place of a text. -/
def regKey (line : List Char) (q : ℕ) : Char × List Char :=
  (line.getD q '\x00', (((line.drop q).takeWhile (· ≠ '\x00')).takeWhile isRegChar).drop 1)

/-- There is a character behind the register at a place. -/
def regFollowed (line : List Char) (q : ℕ) : Bool :=
  line.getD (q + (((line.drop q).takeWhile (· ≠ '\x00')).takeWhile isRegChar).length) '\x00' ≠ '\x00'

section Registers

variable {V : Type}

/-- Reading the register at a place of a text, with the registers so far. -/
def readReg (scan : EzScan V) (keywords : List (List Char × EzToken)) (line : List Char)
    (regs : List EzReg) (q : ℕ) : EzToken × List EzReg :=
  let read := EzTokenizer.getNextToken scan keywords (line.length + 1)
    { line := line, p := q, actualNumber := scan.nan, regs := regs }
  (read.1, read.2.regs)

/-- The name of a slot is the start of the name of a register. -/
def nameStarts (stored key : Char × List Char) : Bool := stored.2.isPrefixOf key.2

/-- A slot for a register. -/
def keyReg (key : Char × List Char) : EzReg := ⟨key.2, regType key.1⟩

/-- The registers at places of a text, read in any order: two of them are the same slot exactly when
their prefixes and full names are the same, and the type of the slot is that of the prefix. -/
structure RegsRight (line : List Char) (places : List ℕ) (tokens : List EzToken) (regs : List EzReg) :
    Prop where
  slots : ∀ (i j p q : ℕ), places[i]? = some p → places[j]? = some q →
    ((∃ n, tokens[i]? = some (EzToken.reg n) ∧ tokens[j]? = some (.reg n)) ↔ regKey line p = regKey line q)
  types : ∀ (i p n : ℕ), places[i]? = some p → tokens[i]? = some (.reg n) →
    ∃ reg, regs[n]? = some reg ∧ reg.type = regType (regKey line p).1

/-- Places of registers with names up to the limit, and no more different ones than there are slots. -/
structure RegPlaces (line : List Char) (places : List ℕ) : Prop where
  isPrefix : ∀ q ∈ places, isRegPrefix (line.getD q '\x00') = true
  name : ∀ q ∈ places, (regKey line q).2.length ≤ ezExpRegNameLimit
  count : (places.map (regKey line)).dedup.length ≤ ezExpRegCount

/-- At the prefix of a register it is read. -/
theorem readToken_of_regPrefix (scan : EzScan V) (keywords : List (List Char × EzToken))
    {tkz : EzTokenizer V} (hletter : isRegPrefix (tkz.ch 0) = true) :
    tkz.readToken scan keywords =
      (.token { tkz with actualString := none }.parseReg.1,
        { tkz with actualString := none }.parseReg.2) := by
  obtain ⟨start, hstart⟩ : ∃ start, start = { tkz with actualString := none } := ⟨_, rfl⟩
  have hch : start.ch 0 = tkz.ch 0 := by rw [hstart]; rfl
  simp only [isRegPrefix, ← hch, Bool.or_eq_true, decide_eq_true_eq] at hletter
  have hne : ∀ c, c ≠ '$' → c ≠ '@' → start.ch 0 ≠ c := by
    rintro c hdollar hat rfl
    exact hletter.elim hdollar hat
  obtain ⟨-, text, hrest⟩ := rest_of_ch (hne '\x00' (by decide) (by decide))
  have hspace : isSpace (start.ch 0) = false := by
    rcases hletter with h | h <;> rw [h] <;> decide
  rw [EzTokenizer.readToken, ← hstart,
    skipBlank_of_plain hrest hspace (hne '/' (by decide) (by decide))]
  simp only [if_neg (hne '\x00' (by decide) (by decide)), if_pos hletter]

/-- The token of `__parse_reg`, and the registers behind it. -/
theorem parseReg_regs (tkz : EzTokenizer V) :
    (tkz.parseReg.1, tkz.parseReg.2.regs) =
      if (tkz.advance (tkz.rest.takeWhile isRegChar).length).ch 0 = '\x00' then (.error, tkz.regs)
      else if ezExpRegNameLimit < (tkz.rest.takeWhile isRegChar).length - 1 then (.error, tkz.regs)
      else match tkz.regs.findIdx? fun reg => reg.name.isPrefixOf (tkz.rest.drop 1) with
        | some i => (.reg i, tkz.regs)
        | none =>
          if tkz.regs.length = ezExpRegCount then (.error, tkz.regs)
          else (.reg tkz.regs.length,
            tkz.regs ++ [keyReg (tkz.ch 0, (tkz.rest.takeWhile isRegChar).drop 1)]) := by
  unfold EzTokenizer.parseReg isRegChar
  simp only
  split
  · rfl
  · split
    · rfl
    · cases tkz.regs.findIdx? fun reg => reg.name.isPrefixOf (tkz.rest.drop 1) with
      | some i => rfl
      | none =>
        simp only
        split <;> rfl

/-- Reading a register is `__parse_reg`. -/
theorem readReg_eq (scan : EzScan V) (keywords : List (List Char × EzToken)) {line : List Char}
    (regs : List EzReg) {q : ℕ} (hletter : isRegPrefix (line.getD q '\x00') = true) :
    readReg scan keywords line regs q =
      if regFollowed line q = false then (.error, regs)
      else if ezExpRegNameLimit < (regKey line q).2.length then (.error, regs)
      else match regs.findIdx? fun reg => reg.name.isPrefixOf
          (((line.drop q).takeWhile (· ≠ '\x00')).drop 1) with
        | some i => (.reg i, regs)
        | none =>
          if regs.length = ezExpRegCount then (.error, regs)
          else (.reg regs.length, regs ++ [keyReg (regKey line q)]) := by
  have hfollowed : regFollowed line q = false ↔
      line.getD (q + (((line.drop q).takeWhile (· ≠ '\x00')).takeWhile isRegChar).length) '\x00' =
        '\x00' := by
    rw [regFollowed, decide_eq_false_iff_not, not_not]
  rw [readReg, EzTokenizer.getNextToken, readToken_of_regPrefix scan keywords (by exact hletter)]
  simp only [hfollowed]
  rw [regKey, List.length_drop]
  exact parseReg_regs { line := line, p := q, actualNumber := scan.nan, regs := regs }

/-- A text without spaces and tokens is the start of another one exactly when it is the start of what
stands there before the first space or token. -/
theorem isPrefixOf_takeWhile {name text : List Char} (hname : ∀ c ∈ name, isRegChar c = true) :
    name.isPrefixOf (text.takeWhile isRegChar) = name.isPrefixOf text := by
  induction name generalizing text with
  | nil => simp
  | cons c name ih =>
    cases text with
    | nil => rfl
    | cons d text =>
      rw [List.takeWhile_cons]
      by_cases hd : isRegChar d = true
      · rw [if_pos hd, List.isPrefixOf_cons_cons, List.isPrefixOf_cons_cons,
          ih fun c' hc => hname c' (List.mem_cons_of_mem _ hc)]
      · have hne : (c == d) = false :=
          beq_eq_false_iff_ne.mpr fun heq => hd (heq ▸ hname c List.mem_cons_self)
        rw [if_neg hd, List.isPrefixOf_cons_cons, hne, Bool.false_and]
        rfl

/-- The names of registers have no spaces and no tokens. -/
theorem regKey_chars (line : List Char) (q : ℕ) : ∀ c ∈ (regKey line q).2, isRegChar c = true :=
  fun _ hc => List.mem_takeWhile_imp (List.mem_of_mem_drop hc)

/-- A slot whose name is that of a register of the text fits by the name of the other register. -/
theorem regName_isPrefixOf {line : List Char} {p q : ℕ}
    (hletter : isRegPrefix (line.getD q '\x00') = true) :
    (regKey line p).2.isPrefixOf (((line.drop q).takeWhile (· ≠ '\x00')).drop 1) =
      nameStarts (regKey line p) (regKey line q) := by
  simp only [isRegPrefix, Bool.or_eq_true, decide_eq_true_eq] at hletter
  have hchar : isRegChar (line.getD q '\x00') = true := by
    rcases hletter with h | h <;> rw [h] <;> decide
  have hne : ({ line := line, p := q, actualNumber := () } : EzTokenizer Unit).ch 0 ≠ '\x00' := by
    rcases hletter with h | h <;> rw [EzTokenizer.ch, Nat.add_zero, h] <;> decide
  obtain ⟨-, text, hrest⟩ := rest_of_ch hne
  have htext : (line.drop q).takeWhile (· ≠ '\x00') = line.getD q '\x00' :: text := hrest
  rw [nameStarts, ← isPrefixOf_takeWhile (regKey_chars line p)]
  congr 1
  rw [regKey, htext, List.takeWhile_cons_of_pos hchar]
  rfl

/-- Tests that agree on a list find the same place. -/
theorem findIdx?_congr {α : Type} {test test' : α → Bool} {entries : List α}
    (h : ∀ a ∈ entries, test a = test' a) : entries.findIdx? test = entries.findIdx? test' := by
  induction entries with
  | nil => rfl
  | cons a entries ih =>
    rw [List.findIdx?_cons, List.findIdx?_cons, h a List.mem_cons_self,
      ih fun b hb => h b (List.mem_cons_of_mem _ hb)]

/-- The slots of a table of registers are searched by the names. -/
theorem findIdx?_map_keyReg (slots : List (Char × List Char)) (test : List Char → Bool) :
    ((slots.map keyReg).findIdx? fun reg => test reg.name) = slots.findIdx? fun key => test key.2 := by
  rw [List.findIdx?_map]
  rfl

/-- With registers of the text in the slots, and a free slot when it is needed, a register is given
the first slot whose name is the start of its own, and else a new one. -/
theorem readReg_intern (scan : EzScan V) (keywords : List (List Char × EzToken)) {line : List Char}
    {slots : List (Char × List Char)} {q : ℕ} (hletter : isRegPrefix (line.getD q '\x00') = true)
    (hname : (regKey line q).2.length ≤ ezExpRegNameLimit) (hfollowed : regFollowed line q = true)
    (hslots : ∀ key ∈ slots, ∃ p, key = regKey line p)
    (hroom : regKey line q ∉ slots → slots.length < ezExpRegCount) :
    readReg scan keywords line (slots.map keyReg) q =
      (.reg (internStep nameStarts slots (regKey line q)).1,
        (internStep nameStarts slots (regKey line q)).2.map keyReg) := by
  have hfind : ((slots.map keyReg).findIdx? fun reg => reg.name.isPrefixOf
      (((line.drop q).takeWhile (· ≠ '\x00')).drop 1)) =
      slots.findIdx? fun s => nameStarts s (regKey line q) := by
    rw [findIdx?_map_keyReg slots fun name => name.isPrefixOf _]
    refine findIdx?_congr fun key hkey => ?_
    obtain ⟨p, rfl⟩ := hslots key hkey
    exact regName_isPrefixOf hletter
  rw [readReg_eq scan keywords _ hletter, if_neg (by rw [hfollowed]; simp), if_neg (by omega), hfind,
    internStep]
  cases hfound : slots.findIdx? fun s => nameStarts s (regKey line q) with
  | some i => rfl
  | none =>
    have hnew : regKey line q ∉ slots := fun hmem => by
      have hself := List.findIdx?_eq_none_iff.mp hfound _ hmem
      rw [nameStarts, List.isPrefixOf_iff_prefix.mpr (List.prefix_refl _)] at hself
      cases hself
    have hlt := hroom hnew
    simp only [List.length_map, if_neg (Nat.ne_of_lt hlt), List.map_append, List.map_cons, List.map_nil]

/-- A key has a slot that fits it. -/
theorem nameStarts_refl (key : Char × List Char) : nameStarts key key = true :=
  List.isPrefixOf_iff_prefix.mpr (List.prefix_refl _)

/-- The slots of keys stay different, and come from the keys. -/
theorem internStep_slots {slots keys : List (Char × List Char)} (hnodup : slots.Nodup)
    (hsub : ∀ key ∈ slots, key ∈ keys) {key : Char × List Char} (hkey : key ∈ keys) :
    (internStep nameStarts slots key).2.Nodup ∧ ∀ k ∈ (internStep nameStarts slots key).2, k ∈ keys := by
  rw [internStep]
  split
  · exact ⟨hnodup, hsub⟩
  · next hfind =>
    refine ⟨List.nodup_append.mpr ⟨hnodup, List.nodup_singleton key, ?_⟩, fun k hk => ?_⟩
    · rintro a ha b hb rfl
      obtain rfl := List.mem_singleton.mp hb
      have hself := List.findIdx?_eq_none_iff.mp hfind a ha
      rw [nameStarts_refl] at hself
      cases hself
    · rcases List.mem_append.mp hk with hk | hk
      · exact hsub k hk
      · exact List.mem_singleton.mp hk ▸ hkey

/-- Reading the registers at places behind each of which there is a character gives them slots by the
first name that is the start of theirs. -/
theorem readReg_run (scan : EzScan V) (keywords : List (List Char × EzToken)) {line : List Char}
    {places : List ℕ} (hplaces : RegPlaces line places)
    (hfollowed : ∀ q ∈ places, regFollowed line q = true) :
    runTotal (readReg scan keywords line) [] places =
      ((runTotal (internStep nameStarts) [] (places.map (regKey line))).1.map EzToken.reg,
        (runTotal (internStep nameStarts) [] (places.map (regKey line))).2.map keyReg) := by
  have hrun : ∀ (rest : List ℕ) (slots : List (Char × List Char)), (∀ q ∈ rest, q ∈ places) →
      slots.Nodup → (∀ key ∈ slots, key ∈ places.map (regKey line)) →
      runTotal (readReg scan keywords line) (slots.map keyReg) rest =
        ((runTotal (internStep nameStarts) slots (rest.map (regKey line))).1.map EzToken.reg,
          (runTotal (internStep nameStarts) slots (rest.map (regKey line))).2.map keyReg) := by
    intro rest
    induction rest with
    | nil => exact fun slots _ _ _ => rfl
    | cons q rest ih =>
      intro slots hrest hnodup hsub
      have hq := hrest q List.mem_cons_self
      have hkey : regKey line q ∈ places.map (regKey line) := List.mem_map_of_mem hq
      have hslots : ∀ key ∈ slots, ∃ p, key = regKey line p := fun key hkey =>
        let ⟨p, _, hp⟩ := List.mem_map.mp (hsub key hkey)
        ⟨p, hp.symm⟩
      have hroom : regKey line q ∉ slots → slots.length < ezExpRegCount := by
        intro hnew
        have hmore : (regKey line q :: slots).Subperm (places.map (regKey line)).dedup :=
          List.subperm_of_subset (List.nodup_cons.mpr ⟨hnew, hnodup⟩) fun key hkey' =>
            List.mem_dedup.mpr ((List.mem_cons.mp hkey').elim (fun heq => heq ▸ hkey) (hsub key))
        exact Nat.lt_of_lt_of_le (Nat.lt_of_succ_le hmore.length_le) hplaces.count
      have hread := readReg_intern scan keywords (hplaces.isPrefix q hq) (hplaces.name q hq)
        (hfollowed q hq) hslots hroom
      obtain ⟨hnodup', hsub'⟩ := internStep_slots hnodup hsub hkey
      rw [List.map_cons, runTotal, runTotal, hread,
        ih _ (fun p hp => hrest p (List.mem_cons_of_mem _ hp)) hnodup' hsub']
      rfl
  exact hrun places [] (fun _ h => h) List.nodup_nil fun key h => absurd h List.not_mem_nil

/-- The register at a place where the text ends behind it is an error. -/
theorem readReg_of_end (scan : EzScan V) (keywords : List (List Char × EzToken)) {line : List Char}
    (regs : List EzReg) {q : ℕ} (hletter : isRegPrefix (line.getD q '\x00') = true)
    (hend : regFollowed line q = false) : (readReg scan keywords line regs q).1 = .error := by
  rw [readReg_eq scan keywords regs hletter, if_pos hend]

/-- Tokens of slots are the same as the slots. -/
theorem slotsOwn_iff {line : List Char} {places outs : List ℕ} (hlength : outs.length = places.length) :
    SlotsOwn (places.map (regKey line)) outs ↔
      ∀ (i j p q : ℕ), places[i]? = some p → places[j]? = some q →
        ((∃ n, (outs.map EzToken.reg)[i]? = some (EzToken.reg n) ∧
          (outs.map EzToken.reg)[j]? = some (EzToken.reg n)) ↔ regKey line p = regKey line q) := by
  have hout : ∀ {i p : ℕ}, places[i]? = some p → ∃ m, outs[i]? = some m := fun {i p} hp =>
    ⟨_, List.getElem?_eq_getElem (hlength ▸ (List.getElem?_eq_some_iff.mp hp).1)⟩
  have htoken : ∀ {i m n : ℕ}, outs[i]? = some m →
      ((outs.map EzToken.reg)[i]? = some (EzToken.reg n) ↔ m = n) := by
    intro i m n hm
    rw [List.getElem?_map, hm, Option.map_some, Option.some_inj, EzToken.reg.injEq]
  constructor
  · intro howned i j p q hp hq
    obtain ⟨m, hm⟩ := hout hp
    obtain ⟨n, hn⟩ := hout hq
    rw [← howned i j _ _ m n (by rw [List.getElem?_map, hp]; rfl) (by rw [List.getElem?_map, hq]; rfl)
      hm hn]
    simp only [htoken hm, htoken hn]
    exact ⟨fun ⟨k, hk, hk'⟩ => hk.trans hk'.symm, fun heq => ⟨n, heq, rfl⟩⟩
  · intro hslots i j k l m n hk hl hm hn
    rw [List.getElem?_map] at hk hl
    obtain ⟨p, hp, rfl⟩ := Option.map_eq_some_iff.mp hk
    obtain ⟨q, hq, rfl⟩ := Option.map_eq_some_iff.mp hl
    rw [← hslots i j p q hp hq]
    simp only [htoken hm, htoken hn]
    exact ⟨fun heq => ⟨n, heq, rfl⟩, fun ⟨k, hk, hk'⟩ => hk.trans hk'.symm⟩

/-- Register occurrences denote the same slot exactly when they have the same prefix and the same full
name, with the type of the prefix, if and only if there is a character behind each of them and no
register comes for the first time behind one whose name is the start of its own. -/
theorem registers_right_iff (scan : EzScan V) (keywords : List (List Char × EzToken)) {line : List Char}
    {places : List ℕ} (hplaces : RegPlaces line places) :
    RegsRight line places (runTotal (readReg scan keywords line) [] places).1
        (runTotal (readReg scan keywords line) [] places).2 ↔
      (∀ q ∈ places, regFollowed line q = true) ∧
        FreshUnfit nameStarts (places.map (regKey line)) := by
  obtain ⟨hiff, hinterned⟩ := intern_iff nameStarts nameStarts_refl (places.map (regKey line))
  have hlength : (runTotal (internStep nameStarts) [] (places.map (regKey line))).1.length =
      places.length := (runTotal_length _ _ _).trans (List.length_map _)
  constructor
  · intro hright
    have hfollowed : ∀ q ∈ places, regFollowed line q = true := by
      intro q hq
      by_contra hend
      obtain ⟨i, hi⟩ := List.getElem?_of_mem hq
      obtain ⟨n, hn, -⟩ := (hright.slots i i q q hi hi).mpr rfl
      obtain ⟨regs, hout⟩ := runTotal_getElem? (readReg scan keywords line) (t := []) hi
      rw [hout, readReg_of_end scan keywords regs (hplaces.isPrefix q hq) (by simpa using hend)] at hn
      cases hn
    have hslots := hright.slots
    rw [readReg_run scan keywords hplaces hfollowed] at hslots
    exact ⟨hfollowed, hiff.mp ((slotsOwn_iff hlength).mpr hslots)⟩
  · rintro ⟨hfollowed, hfresh⟩
    rw [readReg_run scan keywords hplaces hfollowed]
    refine ⟨(slotsOwn_iff hlength).mp (hiff.mpr hfresh), fun i p n hp hn => ?_⟩
    have htable := hinterned hfresh
    have hkey : (places.map (regKey line))[i]? = some (regKey line p) := by
      rw [List.getElem?_map, hp]
      rfl
    rw [List.getElem?_map] at hn
    obtain ⟨m, hm, htoken⟩ := Option.map_eq_some_iff.mp hn
    rw [EzToken.reg.inj htoken] at hm
    refine ⟨keyReg (regKey line p), ?_, rfl⟩
    rw [List.getElem?_map, htable.getElem?_out hkey hm]
    rfl

end Registers

/-- A text with two registers. -/
def regsExample : List Char := "$a+@b;".toList

/-- They are two slots. -/
theorem registers_right_example :
    RegsRight regsExample [0, 3, 0] (runTotal (readReg ⟨fun _ => (), ()⟩ [] regsExample) [] [0, 3, 0]).1
      (runTotal (readReg ⟨fun _ => (), ()⟩ [] regsExample) [] [0, 3, 0]).2 := by
  refine (registers_right_iff ⟨fun _ => (), ()⟩ [] ⟨by decide, by decide, by decide⟩).mpr
    ⟨by decide, ?_⟩
  have hnone : FreshUnfit nameStarts [] := fun pre k suf heq => by cases pre <;> cases heq
  have hfirst : FreshUnfit nameStarts ([] ++ [regKey regsExample 0]) :=
    freshUnfit_append_singleton.mpr ⟨hnone, fun _ _ h => absurd h List.not_mem_nil⟩
  have hsecond : FreshUnfit nameStarts ([regKey regsExample 0] ++ [regKey regsExample 3]) :=
    freshUnfit_append_singleton.mpr ⟨hfirst, by decide⟩
  exact freshUnfit_append_singleton.mpr ⟨hsecond, by decide⟩

/-- The registers `$a` and `$ab` are one slot. -/
theorem registers_share :
    ¬ ∀ (line : List Char) (places : List ℕ), RegPlaces line places →
      RegsRight line places (runTotal (readReg ⟨fun _ => (), ()⟩ [] line) [] places).1
        (runTotal (readReg ⟨fun _ => (), ()⟩ [] line) [] places).2 := by
  intro h
  have hright := h "$a+$ab;".toList [0, 3] ⟨by decide, by decide, by decide⟩
  have hsame := (hright.slots 0 1 0 3 rfl rfl).mp ⟨0, by decide⟩
  revert hsame
  decide

end DasEdge.Expression
