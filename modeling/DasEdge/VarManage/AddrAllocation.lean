import DasEdge.Library.Spans
import DasEdge.VarManage.AddGroup

/-!
# The registers of variables that are created together

The next address is the end of the first of the variables that start highest. It compares start
addresses with the start of the region strictly, so a variable that starts there does not count, and
it knows no upper limit. The address is the end of all variables but for a longer variable at the
start of the region and for one without registers that starts highest. From there on a call lays its
variables one behind the other.
-/

namespace DasEdge.VarManage

open DasEdge.Library

/-- The output registers of a variable. -/
def ExtData.span (data : ExtData) : Span := ⟨data.xIo.usAddr.toNat, typeRegs data.xIo.btOutVarType⟩

/-- The variables have their registers in the region of the extended data, and no two of them share
one. -/
structure DisjointVars (vars : List ExtDataCfg) : Prop where
  within : ∀ v ∈ vars, v.span.Within 1024 10241
  pairwise : vars.Pairwise fun a b => a.span.Apart b.span

/-- `w` is the first of the variables that start highest, and it starts behind the start of the
region. -/
def FirstHighest (vars : List ExtDataCfg) (w : ExtDataCfg) : Prop :=
  1024 < w.span.start ∧ (∀ v ∈ vars, v.span.start ≤ w.span.start) ∧
    vars.find? (fun v => v.span.start = w.span.start) = some w

/-- A variable that starts behind the start of the region exists, or none takes more than one
register; and the first of those that start highest has a register, or none reaches to where it
starts. -/
def NextFree (vars : List ExtDataCfg) : Prop :=
  ((∀ v ∈ vars, v.span.start ≤ 1024) → ∀ v ∈ vars, v.span.size ≤ 1) ∧
    ∀ w, FirstHighest vars w → w.span.size = 0 → ∀ v ∈ vars, v.span.stop ≤ w.span.start

theorem FirstHighest.mem {vars : List ExtDataCfg} {w : ExtDataCfg} (h : FirstHighest vars w) :
    w ∈ vars :=
  List.mem_of_find?_eq_some h.2.2

/-- There is only one first of the variables that start highest. -/
theorem FirstHighest.unique {vars : List ExtDataCfg} {w w' : ExtDataCfg} (h : FirstHighest vars w)
    (h' : FirstHighest vars w') : w = w' := by
  have hstart : w.span.start = w'.span.start := Nat.le_antisymm (h'.2.1 w h.mem) (h.2.1 w' h'.mem)
  have hfind := h.2.2
  rw [hstart, h'.2.2] at hfind
  exact (Option.some.inj hfind).symm

/-- One more variable at the end of the list. -/
theorem varMaxAddr_append (vars : List ExtDataCfg) (d : ExtDataCfg) :
    varMaxAddr (vars ++ [d]) =
      if d.xIo.usAddr > (varMaxAddr vars).1 then (d.xIo.usAddr, d.btOutVarSize)
      else varMaxAddr vars := by
  simp only [varMaxAddr, List.foldl_append, List.foldl_cons, List.foldl_nil]
  rfl

/-- A variable at the end that starts higher than all others is the first that does. -/
theorem firstHighest_append_self {vars : List ExtDataCfg} {d : ExtDataCfg} (hlow : 1024 < d.span.start)
    (hd : ∀ v ∈ vars, v.span.start < d.span.start) : FirstHighest (vars ++ [d]) d := by
  refine ⟨hlow, fun v hv => ?_, ?_⟩
  · rcases List.mem_append.mp hv with hv | hv
    · exact (hd v hv).le
    · rw [List.mem_singleton.mp hv]
  · have hnone : vars.find? (fun v => v.span.start = d.span.start) = none := by
      rw [List.find?_eq_none]
      intro v hv
      simpa using (hd v hv).ne
    simp [List.find?_append, hnone]

/-- A variable at the end that does not start higher changes nothing. -/
theorem FirstHighest.append {vars : List ExtDataCfg} {w d : ExtDataCfg} (h : FirstHighest vars w)
    (hd : d.span.start ≤ w.span.start) : FirstHighest (vars ++ [d]) w := by
  refine ⟨h.1, fun v hv => ?_, by simp [List.find?_append, h.2.2]⟩
  rcases List.mem_append.mp hv with hv | hv
  · exact h.2.1 v hv
  · rwa [List.mem_singleton.mp hv]

/-- The loop finds the first of the variables that start highest, if one starts behind the start of
the region. -/
theorem varMaxAddr_cases (vars : List ExtDataCfg) :
    (varMaxAddr vars = (1024, 1) ∧ ∀ v ∈ vars, v.span.start ≤ 1024) ∨
      ∃ w, FirstHighest vars w ∧ varMaxAddr vars = (w.xIo.usAddr, w.btOutVarSize) := by
  induction vars using List.reverseRecOn with
  | nil => exact Or.inl ⟨rfl, fun v hv => nomatch hv⟩
  | append_singleton vars d ih =>
    rw [varMaxAddr_append]
    rcases ih with ⟨hmax, hlow⟩ | ⟨w, hw, hmax⟩
    · rw [hmax]
      split
      · rename_i hgt
        have hgt' : 1024 < d.span.start := UInt16.lt_iff_toNat_lt.mp hgt
        exact Or.inr ⟨d, firstHighest_append_self hgt' fun v hv => (hlow v hv).trans_lt hgt', rfl⟩
      · rename_i hle
        have hle' : d.span.start ≤ 1024 :=
          Nat.le_of_not_lt fun hlt => hle (UInt16.lt_iff_toNat_lt.mpr hlt)
        refine Or.inl ⟨rfl, fun v hv => ?_⟩
        rcases List.mem_append.mp hv with hv | hv
        · exact hlow v hv
        · rwa [List.mem_singleton.mp hv]
    · rw [hmax]
      split
      · rename_i hgt
        have hgt' : w.span.start < d.span.start := UInt16.lt_iff_toNat_lt.mp hgt
        exact Or.inr ⟨d, firstHighest_append_self (hw.1.trans hgt') fun v hv =>
          (hw.2.1 v hv).trans_lt hgt', rfl⟩
      · rename_i hle
        have hle' : d.span.start ≤ w.span.start :=
          Nat.le_of_not_lt fun hlt => hle (UInt16.lt_iff_toNat_lt.mpr hlt)
        exact Or.inr ⟨w, hw.append hle', rfl⟩

/-- The next address is counted up in 16 bits. -/
theorem varGetNextAddr_toNat {vars : List ExtDataCfg} {addr : UInt16} {sz : ℕ}
    (h : varMaxAddr vars = (addr, sz))
    (hfit : addr.toNat + (sz + 1) / 2 < 65536) :
    (varGetNextAddr vars).toNat = addr.toNat + (sz + 1) / 2 := by
  have hsz : (UInt16.ofNat ((sz + 1) / 2)).toNat = (sz + 1) / 2 :=
    UInt16.toNat_ofNat_of_lt' (show (sz + 1) / 2 < 65536 by omega)
  rw [varGetNextAddr, h, UInt16.toNat_add, hsz]
  exact Nat.mod_eq_of_lt hfit

/-- Without a variable behind the start of the region the next address is the second one of the
region. -/
theorem varGetNextAddr_of_low {vars : List ExtDataCfg} (h : ∀ v ∈ vars, v.span.start ≤ 1024) :
    (varGetNextAddr vars).toNat = 1025 := by
  rcases varMaxAddr_cases vars with ⟨hmax, -⟩ | ⟨w, hw, -⟩
  · exact varGetNextAddr_toNat hmax (by decide)
  · exact absurd (h w hw.mem) (Nat.not_le.mpr hw.1)

/-- The end of a variable of the list does not wrap around. -/
theorem DisjointVars.stop_lt {vars : List ExtDataCfg} (h : DisjointVars vars) {v : ExtDataCfg}
    (hv : v ∈ vars) :
    v.span.stop < 65536 := by
  rcases Nat.eq_zero_or_pos v.span.size with hsize | hsize
  · rw [Span.stop, hsize]
    exact v.xIo.usAddr.toNat_lt
  · exact ((Span.within_iff hsize).mp (h.within v hv)).2.trans_lt (by decide)

/-- Else the next address is the end of the first of the variables that start highest. -/
theorem varGetNextAddr_of_firstHighest {vars : List ExtDataCfg} {w : ExtDataCfg} (h : DisjointVars vars)
    (hw : FirstHighest vars w) : (varGetNextAddr vars).toNat = w.span.stop := by
  rcases varMaxAddr_cases vars with ⟨-, hlow⟩ | ⟨w', hw', hmax⟩
  · exact absurd (hlow w hw.mem) (Nat.not_le.mpr hw.1)
  · obtain rfl := hw.unique hw'
    exact varGetNextAddr_toNat hmax (h.stop_lt hw.mem)

/-- No variable starts behind the next address. -/
theorem DisjointVars.start_le_next {vars : List ExtDataCfg} (h : DisjointVars vars) :
    1025 ≤ (varGetNextAddr vars).toNat ∧ ∀ v ∈ vars, v.span.start ≤ (varGetNextAddr vars).toNat := by
  rcases varMaxAddr_cases vars with ⟨-, hlow⟩ | ⟨w, hw, -⟩
  · rw [varGetNextAddr_of_low hlow]
    exact ⟨le_rfl, fun v hv => (hlow v hv).trans (by decide)⟩
  · rw [varGetNextAddr_of_firstHighest h hw]
    exact ⟨(Nat.succ_le_of_lt hw.1).trans (Nat.le_add_right _ _),
      fun v hv => (hw.2.1 v hv).trans (Nat.le_add_right _ _)⟩

/-- Of two variables the one that starts lower ends before the other, if that has a register. -/
theorem DisjointVars.stop_le {vars : List ExtDataCfg} (h : DisjointVars vars) {v w : ExtDataCfg}
    (hv : v ∈ vars)
    (hw : w ∈ vars) (hstart : v.span.start ≤ w.span.start) (hsize : 0 < w.span.size) :
    v.span.stop ≤ w.span.stop := by
  by_cases heq : v = w
  · rw [heq]
  · have : Std.Symm fun a b : ExtDataCfg => a.span.Apart b.span := ⟨fun _ _ hab => hab.symm⟩
    have happart := h.pairwise.forall hv hw heq
    exact (happart.stop_le hstart hsize).trans (Nat.le_add_right _ _)

/-- No variable reaches behind the next address exactly when it is free. -/
theorem nextFree_iff {vars : List ExtDataCfg} (h : DisjointVars vars) :
    NextFree vars ↔ ∀ v ∈ vars, v.span.stop ≤ (varGetNextAddr vars).toNat := by
  rcases varMaxAddr_cases vars with ⟨-, hlow⟩ | ⟨w, hw, -⟩
  · rw [varGetNextAddr_of_low hlow]
    constructor
    · rintro ⟨hsize, -⟩ v hv
      exact Nat.add_le_add (hlow v hv) (hsize hlow v hv)
    · refine fun hstop => ⟨fun _ v hv => ?_, fun w hw => absurd (hlow w hw.mem) (Nat.not_le.mpr hw.1)⟩
      rcases Nat.eq_zero_or_pos v.span.size with hsize | hsize
      · omega
      · have hstart := ((Span.within_iff hsize).mp (h.within v hv)).1
        have hv := hstop v hv
        rw [Span.stop] at hv
        omega
  · rw [varGetNextAddr_of_firstHighest h hw]
    constructor
    · rintro ⟨-, hempty⟩ v hv
      rcases Nat.eq_zero_or_pos w.span.size with hsize | hsize
      · exact (hempty w hw hsize v hv).trans (Nat.le_add_right _ _)
      · exact h.stop_le hv hw.mem (hw.2.1 v hv) hsize
    · refine fun hstop => ⟨fun hlow => absurd (hlow w hw.mem) (Nat.not_le.mpr hw.1),
        fun w' hw' hsize v hv => ?_⟩
      obtain rfl := hw.unique hw'
      exact (hstop v hv).trans (by rw [Span.stop, hsize, Nat.add_zero])

/-- The calls that create variables, with their arguments. -/
inductive AddCall where
  | ai (id pre : String) (slaveAddr devType devNum : Int32)
  | ttl (devType1 : Int32) (id pre : String) (slaveAddr devType devNum : Int32)
  | json (obj : CJson) (devType devNum proto : Int32)

/-- The code that a call returns and the variables that it creates. -/
def AddCall.run (room : ℕ) (vars : List ExtDataCfg) : AddCall → ℤ × List ExtDataCfg
  | .ai id pre slaveAddr devType devNum => varAddAi room vars id pre slaveAddr devType devNum
  | .ttl devType1 id pre slaveAddr devType devNum =>
    varAddTtl room vars devType1 id pre slaveAddr devType devNum
  | .json obj devType devNum proto => varmanageAddDevWithJson room vars obj devType devNum proto

/-- The call takes the next address anew for each variable. -/
def AddCall.recounts : AddCall → Bool
  | .json .. => true
  | _ => false

/-- The number of registers that an entry of `regs` is to get. -/
def regSize (reg : CJson) : ℕ := (regTypes reg).elim 0 fun types => typeRegs types.2

/-- The entries of `regs`, if there are any. -/
def regsOf (obj : CJson) : List CJson :=
  match obj.getObjectItem "regs" with
  | some (.array regs) => regs
  | _ => []

/-- The numbers of registers of all the variables that a call is to create. -/
def AddCall.wanted : AddCall → List ℕ
  | .ai .. => List.replicate 8 2
  | .ttl .. => List.replicate 8 1
  | .json obj .. => (regsOf obj).map regSize

/-- The entries of `regs` before the first one that is refused: one whose name is taken, by a
variable or by an entry before it, whose members are not in order, or that there is no memory for.
-/
def admittedRegs : ℕ → (String → Bool) → List CJson → List CJson
  | room + 1, taken, reg :: regs =>
    let name := (reg.getString "name").getD ""
    if taken name = true ∨ regTypes reg = none then []
    else reg :: admittedRegs room (fun s => taken s || decide (s = name)) regs
  | _, _, _ => []

/-- A call is refused before it creates anything: its group exists, one of its names does, or an
argument is wrong. -/
def AddCall.Refused (vars : List ExtDataCfg) : AddCall → Prop
  | .ai id pre .. => varHasGroup vars (snprintf 33 ("AI_" ++ id)) = true ∨
      ∃ n < 8, varHasName vars (snprintf 32 (pre ++ "_AI_" ++ toString (n + 1))) = true
  | .ttl devType1 id pre .. =>
    varHasGroup vars (snprintf 33 ("TTL_" ++ toString 0 ++ "_" ++ id)) = true ∨
      ttlCheck vars devType1 pre (List.range 8) ≠ none
  | .json obj .. =>
    let slave := obj.getInt "slave" (-1)
    slave < 1 ∨ 247 < slave ∨ regsOf obj = [] ∨ regsCheck vars (regsOf obj) ≠ none ∨
      ∀ group, obj.getString "group" = some group →
        group.length = 0 ∨ 32 < group.length ∨ varHasGroup vars group = true

/-- The numbers of registers of the variables that a call that is not refused comes to create. -/
def AddCall.asked (room : ℕ) (vars : List ExtDataCfg) : AddCall → List ℕ
  | .ai .. => List.replicate (min room 8) 2
  | .ttl .. => List.replicate (min room 8) 1
  | .json obj .. => (admittedRegs room (varHasName vars) (regsOf obj)).map regSize

/-- The variables that a loop creates have the sizes that were asked for, and if `behind` holds each
starts where the one before it ended, as long as the region has not ended. A loop that is through
has created all it wanted. -/
structure LaidFrom (behind : Prop) (base : ℕ) (asked wanted : List ℕ)
    (result : ℤ × List ExtDataCfg) : Prop where
  sizes : result.2.map (fun d => d.span.size) = asked
  done : result.1 = 0 → asked = wanted
  chained : behind → ChainedUpTo 10241 base (result.2.map fun d => d.span)

/-- The loop that creates the variables of a group lays them one behind the other. -/
theorem createLoop_laid {make : ℕ → UInt16 → UInt16 → Option ExtDataCfg} {sz : UInt16}
    (hmake : ∀ n extAddr addr, ∃ d, make n extAddr addr = some d ∧ d.span = ⟨addr.toNat, sz.toNat⟩)
    (behind : Prop) (room : ℕ) (ns : List ℕ) (extAddr addr : UInt16) :
    LaidFrom behind addr.toNat (List.replicate (min room ns.length) sz.toNat)
      (List.replicate ns.length sz.toNat)
      (createLoop make sz room ns extAddr addr) := by
  induction ns generalizing room extAddr addr with
  | nil =>
    rw [createLoop]
    exact ⟨by simp, fun _ => by simp, fun _ => trivial⟩
  | cons n ns ih =>
    cases room with
    | zero =>
      rw [createLoop]
      exact ⟨by simp, fun h => absurd h (by decide), fun _ => trivial⟩
    | succ room =>
      obtain ⟨d, hd, hspan⟩ := hmake n extAddr addr
      have hrest := ih room (extAddr + sz) (addr + sz)
      rw [createLoop, hd]
      refine ⟨?_, fun hrc => ?_, ?_⟩
      · simp only [List.map_cons, List.length_cons, Nat.add_min_add_right, List.replicate_succ,
          hrest.sizes, hspan]
      · simp only [List.length_cons, Nat.add_min_add_right, List.replicate_succ, hrest.done hrc]
      · rw [List.map_cons, hspan]
        refine fun hbehind => ⟨rfl, fun hstop => ?_⟩
        have hnext : (addr + sz).toNat = addr.toNat + sz.toNat := by
          simp only [Span.stop] at hstop
          rw [UInt16.toNat_add]
          omega
        rw [Span.stop, ← hnext]
        exact hrest.chained hbehind

/-- The next address is behind the highest start, so that what is laid there starts highest. -/
def NextBehind (vars : List ExtDataCfg) : Prop := (varMaxAddr vars).1 < varGetNextAddr vars

/-- Behind a variable that was laid at the next address comes the next one, unless it lies at the
highest start. -/
theorem varGetNextAddr_append {vars : List ExtDataCfg} {d : ExtDataCfg}
    (hd : d.xIo.usAddr = varGetNextAddr vars) :
    (NextBehind vars → 0 < d.span.size → d.span.stop ≤ 10241 →
      NextBehind (vars ++ [d]) ∧ (varGetNextAddr (vars ++ [d])).toNat = d.span.stop) ∧
    (¬ NextBehind vars → ¬ NextBehind (vars ++ [d]) ∧
    varGetNextAddr (vars ++ [d]) = varGetNextAddr vars) := by
  have happend := varMaxAddr_append vars d
  rw [hd] at happend
  constructor
  · intro hbehind hsize hstop
    rw [if_pos (show varGetNextAddr vars > (varMaxAddr vars).1 from hbehind)] at happend
    have hnext : (varGetNextAddr (vars ++ [d])).toNat = d.span.stop := by
      rw [← hd] at happend
      exact varGetNextAddr_toNat happend (hstop.trans_lt (by decide))
    refine ⟨?_, hnext⟩
    rw [NextBehind, UInt16.lt_iff_toNat_lt, hnext, happend, ← hd]
    exact Nat.lt_add_of_pos_right hsize
  · intro hbehind
    rw [if_neg (show ¬ varGetNextAddr vars > (varMaxAddr vars).1 from hbehind)] at happend
    have hnext : varGetNextAddr (vars ++ [d]) = varGetNextAddr vars := by
      rw [varGetNextAddr, happend, varGetNextAddr]
    exact ⟨by rwa [NextBehind, happend, hnext], hnext⟩

/-- The type that a register is written as has registers. -/
theorem regSize_pos {reg : CJson} {types : EVarType × EVarType} (h : regTypes reg = some types) :
    regSize reg = typeRegs types.2 ∧ 0 < typeRegs types.2 := by
  refine ⟨by rw [regSize, h]; rfl, ?_⟩
  have hout : types.2 ≠ .error := by
    simp only [regTypes, Option.bind_eq_bind, Option.bind_eq_some_iff, guard] at h
    obtain ⟨_, _, _, _, inText, _, _, _, _, hout, _, _, _, _, htypes⟩ := h
    obtain rfl := Option.some.inj htypes
    intro herror
    rw [if_neg (not_not_intro herror)] at hout
    cases hout
  revert hout
  cases types.2 <;> decide

/-- A round of the loop over the registers refuses its entry and ends the call, or it creates one
variable at the next address. -/
theorem regsLoop_cons (group : String) (slave devType devNum proto : Int32) (room : ℕ)
    (vars : List ExtDataCfg)
    (reg : CJson) (regs : List CJson) :
    ((regsLoop group slave devType devNum proto room vars (reg :: regs)).1 ≠ 0 ∧
      (regsLoop group slave devType devNum proto room vars (reg :: regs)).2 = [] ∧
      admittedRegs room (varHasName vars) (reg :: regs) = []) ∨
    ∃ room' d, d.xIo.usAddr = varGetNextAddr vars ∧ d.span.size = regSize reg ∧ 0 < regSize reg ∧
      regsLoop group slave devType devNum proto room vars (reg :: regs) =
        ((regsLoop group slave devType devNum proto room' (vars ++ [d]) regs).1,
          d :: (regsLoop group slave devType devNum proto room' (vars ++ [d]) regs).2) ∧
      admittedRegs room (varHasName vars) (reg :: regs) =
      reg :: admittedRegs room' (varHasName (vars ++ [d])) regs := by
  rw [regsLoop]
  cases htaken : varHasName vars ((reg.getString "name").getD "") with
  | true =>
    refine Or.inl ⟨show webnetErrNameExist ≠ 0 by decide, rfl, ?_⟩
    cases room with
    | zero => rfl
    | succ room => rw [admittedRegs, if_pos (Or.inl htaken)]
  | false =>
    cases htypes : regTypes reg with
    | none =>
      refine Or.inl ⟨show webnetErrParam ≠ 0 by decide, rfl, ?_⟩
      cases room with
      | zero => rfl
      | succ room => rw [admittedRegs, if_pos (Or.inr htypes)]
    | some types =>
      cases room with
      | zero => exact Or.inl ⟨show webnetErrNoMem ≠ 0 by decide, rfl, rfl⟩
      | succ room =>
        obtain ⟨hsize, hpos⟩ := regSize_pos htypes
        refine Or.inr ⟨room, _, ?_, ?_, hsize ▸ hpos, rfl, ?_⟩
        · rfl
        · exact hsize.symm
        · rw [admittedRegs, if_neg (by simp [htaken, htypes])]
          congr 2
          funext name
          simp [varHasName]

/-- The loop over the registers creates the variables of the entries that it admits. -/
theorem regsLoop_sizes (group : String) (slave devType devNum proto : Int32) (room : ℕ)
    (vars : List ExtDataCfg)
    (regs : List CJson) :
    (regsLoop group slave devType devNum proto room vars regs).2.map (fun d => d.span.size) =
        (admittedRegs room (varHasName vars) regs).map regSize ∧
      ((regsLoop group slave devType devNum proto room vars regs).1 = 0 →
        admittedRegs room (varHasName vars) regs = regs) ∧
      ∀ n ∈ (admittedRegs room (varHasName vars) regs).map regSize, 0 < n := by
  induction regs generalizing room vars with
  | nil => cases room <;> exact ⟨rfl, fun _ => rfl, fun n hn => nomatch hn⟩
  | cons reg regs ih =>
    rcases regsLoop_cons group slave devType devNum proto room vars reg regs with
      ⟨hrc, hcreated, hadmitted⟩ | ⟨room', d, -, hsize, hpos, hloop, hadmitted⟩
    · rw [hcreated, hadmitted]
      exact ⟨rfl, fun h => absurd h hrc, fun n hn => nomatch hn⟩
    · obtain ⟨hsizes, hdone, hall⟩ := ih room' (vars ++ [d])
      rw [hloop, hadmitted, List.map_cons, List.map_cons, hsize, hsizes]
      exact ⟨rfl, fun h => by rw [hdone h], List.forall_mem_cons.mpr ⟨hpos, hall⟩⟩

/-- Behind the highest start the loop lays its variables one behind the other, else all at the same
address. -/
theorem regsLoop_spans (group : String) (slave devType devNum proto : Int32) (room : ℕ)
    (vars : List ExtDataCfg)
    (regs : List CJson) :
    (NextBehind vars → ChainedUpTo 10241 (varGetNextAddr vars).toNat
      ((regsLoop group slave devType devNum proto room vars regs).2.map fun d => d.span)) ∧
    (¬ NextBehind vars → ∀ d ∈ (regsLoop group slave devType devNum proto room vars regs).2,
      d.span.start = (varGetNextAddr vars).toNat) := by
  induction regs generalizing room vars with
  | nil => cases room <;> exact ⟨fun _ => trivial, fun _ d hd => nomatch hd⟩
  | cons reg regs ih =>
    rcases regsLoop_cons group slave devType devNum proto room vars reg regs with
      ⟨hrc, hcreated, -⟩ | ⟨room', d, hd, hsize, hpos, hloop, -⟩
    · rw [hcreated]
      exact ⟨fun _ => trivial, fun _ d hd => nomatch hd⟩
    · obtain ⟨hchained, hstuck⟩ := ih room' (vars ++ [d])
      obtain ⟨hbehind, hsame⟩ := varGetNextAddr_append hd
      have hstart : d.span.start = (varGetNextAddr vars).toNat := congrArg UInt16.toNat hd
      rw [hloop]
      constructor
      · refine fun hnext => ⟨hstart, fun hstop => ?_⟩
        obtain ⟨hnext', hstop'⟩ := hbehind hnext (hsize ▸ hpos) hstop
        rw [← hstop']
        exact hchained hnext'
      · intro hnext
        obtain ⟨hnext', haddr⟩ := hsame hnext
        refine List.forall_mem_cons.mpr ⟨hstart, ?_⟩
        rw [← haddr]
        exact hstuck hnext'

/-- A created analog input takes two registers. -/
theorem aiVar_span (group pre : String) (slaveAddr devType devNum : Int32) (n : ℕ)
    (extAddr addr : UInt16) :
    (aiVar group pre slaveAddr devType devNum n extAddr addr).span = ⟨addr.toNat, (2 : UInt16).toNat⟩ :=
  congrArg (Span.mk addr.toNat) (show typeRegs .float = (2 : UInt16).toNat by decide)

/-- What the first loop of `__var_add_ttl` has a name for has one in the second loop too. -/
theorem ttlVar_span {vars : List ExtDataCfg} {devType1 : Int32} {pre : String}
    (h : ttlCheck vars devType1 pre (List.range 8) = none) (group : String)
    (slaveAddr devType devNum : Int32) (n : ℕ)
    (extAddr addr : UInt16) :
    ∃ d, ttlVar devType1 group pre slaveAddr devType devNum n extAddr addr = some d ∧
      d.span = ⟨addr.toNat, (1 : UInt16).toNat⟩ := by
  have hchecked : ttlCheckedName devType1 pre 0 ≠ none := by
    intro hnone
    rw [show List.range 8 = 0 :: [1, 2, 3, 4, 5, 6, 7] by decide, ttlCheck, hnone] at h
    cases h
  have hcreated : ∃ name, ttlCreatedName devType1 pre n = some name := by
    rw [ttlCheckedName] at hchecked
    rw [ttlCreatedName]
    split_ifs at hchecked ⊢ <;> first | exact ⟨_, rfl⟩ | exact absurd rfl hchecked
  obtain ⟨name, hname⟩ := hcreated
  refine ⟨_, by rw [ttlVar, hname]; rfl, ?_⟩
  exact congrArg (Span.mk addr.toNat) (show typeRegs .uint16 = (1 : UInt16).toNat by decide)

/-- The entries of `regs` are the items of the array of that key. -/
theorem getObjectItem_of_regsOf {obj reg : CJson} {regs : List CJson} (h : regsOf obj = reg :: regs) :
    obj.getObjectItem "regs" = some (.array (reg :: regs)) := by
  rw [regsOf] at h
  split at h
  · rename_i hitem
    rw [hitem, h]
  · cases h

/-- The code with which the first loop of `__var_add_ttl` ends the call is an error. -/
theorem ttlCheck_ne_zero {vars : List ExtDataCfg} {devType1 : Int32} {pre : String}
    {ns : List ℕ} {rc : ℤ}
    (h : ttlCheck vars devType1 pre ns = some rc) : rc ≠ 0 := by
  induction ns with
  | nil => cases h
  | cons n ns ih =>
    rw [ttlCheck] at h
    split at h
    · cases h
      decide
    · split_ifs at h
      · cases h
        decide
      · exact ih h

/-- The code with which the first loop over the registers ends the call is an error. -/
theorem regsCheck_ne_zero {vars : List ExtDataCfg} {regs : List CJson} {rc : ℤ}
    (h : regsCheck vars regs = some rc) : rc ≠ 0 := by
  induction regs with
  | nil => cases h
  | cons reg regs ih =>
    rw [regsCheck] at h
    split at h
    · cases h
      decide
    · split_ifs at h
      · cases h
        decide
      · cases h
        decide
      · exact ih h

/-- A call that is refused creates nothing and fails. -/
theorem AddCall.run_refused (room : ℕ) {vars : List ExtDataCfg} {call : AddCall}
    (h : call.Refused vars) :
    (call.run room vars).1 ≠ 0 ∧ (call.run room vars).2 = [] := by
  cases call with
  | ai id pre slaveAddr devType devNum =>
    rw [run, varAddAi]
    by_cases hgroup : varHasGroup vars (snprintf 33 ("AI_" ++ id)) = true
    · rw [if_pos hgroup]
      exact ⟨by decide, rfl⟩
    · obtain ⟨n, hn, hname⟩ := h.resolve_left hgroup
      rw [if_neg hgroup, if_pos (List.any_eq_true.mpr ⟨n, List.mem_range.mpr hn, hname⟩)]
      exact ⟨by decide, rfl⟩
  | ttl devType1 id pre slaveAddr devType devNum =>
    rw [run, varAddTtl]
    by_cases hgroup : varHasGroup vars (snprintf 33 ("TTL_" ++ toString 0 ++ "_" ++ id)) = true
    · rw [if_pos hgroup]
      exact ⟨by decide, rfl⟩
    · obtain ⟨rc, hrc⟩ := Option.ne_none_iff_exists'.mp (h.resolve_left hgroup)
      rw [if_neg hgroup, hrc]
      exact ⟨ttlCheck_ne_zero hrc, rfl⟩
  | json obj devType devNum proto =>
    rw [run, varmanageAddDevWithJson]
    cases hgroup : obj.getString "group" with
    | none => exact ⟨show webnetErrParam ≠ 0 by decide, rfl⟩
    | some group =>
      simp only
      split_ifs with hlength hexists hslave
      · exact ⟨by decide, rfl⟩
      · exact ⟨by decide, rfl⟩
      · exact ⟨by decide, rfl⟩
      · cases hregs : regsOf obj with
        | nil =>
          split
          · rename_i reg regs hitem
            rw [regsOf, hitem] at hregs
            cases hregs
          · exact ⟨by decide, rfl⟩
        | cons reg regs =>
          rw [getObjectItem_of_regsOf hregs]
          simp only
          cases hcheck : regsCheck vars (reg :: regs) with
          | some rc => exact ⟨regsCheck_ne_zero hcheck, rfl⟩
          | none =>
            rw [Refused, hregs, hcheck] at h
            simp only [hgroup, Option.some.injEq, forall_eq'] at h
            rw [not_or] at hslave hlength
            simp [hslave, hlength, hexists] at h

/-- A JSON description that is not refused is worked through by the loop over its registers. -/
theorem varmanageAddDevWithJson_loop (room : ℕ) {vars : List ExtDataCfg} {obj : CJson}
    {devType devNum proto : Int32}
    (h : ¬ (AddCall.json obj devType devNum proto).Refused vars) :
    ∃ group, obj.getString "group" = some group ∧
      varmanageAddDevWithJson room vars obj devType devNum proto =
      regsLoop group (obj.getInt "slave" (-1)) devType devNum proto room vars (regsOf obj) := by
  obtain ⟨hslave, hslave', hregs, hcheck, group, hgroup, hlength, hexists⟩ :
      ¬ obj.getInt "slave" (-1) < 1 ∧ ¬ 247 < obj.getInt "slave" (-1) ∧ regsOf obj ≠ [] ∧
        regsCheck vars (regsOf obj) = none ∧
        ∃ group, obj.getString "group" = some group ∧
          ¬ (group.length = 0 ∨ 32 < group.length) ∧ ¬ varHasGroup vars group = true := by
    simpa only [AddCall.Refused, not_or, not_not, not_forall, exists_prop, and_assoc] using h
  obtain ⟨reg, regs, heq⟩ := List.exists_cons_of_ne_nil hregs
  rw [heq] at hcheck
  refine ⟨group, hgroup, ?_⟩
  rw [varmanageAddDevWithJson, hgroup]
  simp only
  rw [if_neg hlength, if_neg hexists, if_neg (not_or.mpr ⟨hslave, hslave'⟩),
    getObjectItem_of_regsOf heq]
  simp only [hcheck, heq]

/-- A call that is not refused lays what it was asked for from the next address on, unless it takes
the next address anew for several variables and the next address is not behind the highest start. -/
theorem AddCall.run_laid (room : ℕ) {vars : List ExtDataCfg} {call : AddCall}
    (h : ¬ call.Refused vars) :
    LaidFrom (call.recounts = true → 1 < (call.asked room vars).length → NextBehind vars)
      (varGetNextAddr vars).toNat
      (call.asked room vars) call.wanted (call.run room vars) := by
  cases call with
  | ai id pre slaveAddr devType devNum =>
    obtain ⟨hgroup, hnames⟩ := not_or.mp h
    rw [run, varAddAi, if_neg hgroup, if_neg]
    · exact createLoop_laid (fun n extAddr addr => ⟨_, rfl, aiVar_span _ _ _ _ _ _ _ _⟩) _ room
        (List.range 8) 50
        (varGetNextAddr vars)
    · rw [List.any_eq_true]
      rintro ⟨n, hn, hname⟩
      exact hnames ⟨n, List.mem_range.mp hn, hname⟩
  | ttl devType1 id pre slaveAddr devType devNum =>
    obtain ⟨hgroup, hcheck⟩ := not_or.mp h
    rw [not_not] at hcheck
    rw [run, varAddTtl, if_neg hgroup, hcheck]
    exact createLoop_laid (ttlVar_span hcheck _ slaveAddr devType devNum) _ room (List.range 8) 70
      (varGetNextAddr vars)
  | json obj devType devNum proto =>
    obtain ⟨group, -, hrun⟩ := varmanageAddDevWithJson_loop room h
    obtain ⟨hsizes, hdone, -⟩ :=
      regsLoop_sizes group (obj.getInt "slave" (-1)) devType devNum proto room vars (regsOf obj)
    obtain ⟨hchained, hstuck⟩ :=
      regsLoop_spans group (obj.getInt "slave" (-1)) devType devNum proto room vars (regsOf obj)
    rw [run, hrun]
    refine ⟨hsizes, fun hrc => congrArg (List.map regSize) (hdone hrc), fun hbehind => ?_⟩
    by_cases hnext : NextBehind vars
    · exact hchained hnext
    · -- at most one variable is created, and it lies at the next address
      have hlen := fun hlen => hnext (hbehind rfl hlen)
      rw [asked, ← hsizes, List.length_map] at hlen
      have hstuck := hstuck hnext
      match (regsLoop group (obj.getInt "slave" (-1)) devType devNum proto room vars
        (regsOf obj)).2, hlen, hstuck with
      | [], _, _ => exact trivial
      | [d], _, hstuck => exact ⟨hstuck d List.mem_cons_self, fun _ => trivial⟩
      | d :: e :: rest, hlen, _ => exact absurd (Nat.succ_lt_succ (Nat.succ_pos _)) hlen

/-- The call is asked for variables with registers only. -/
theorem AddCall.asked_pos (room : ℕ) (vars : List ExtDataCfg) (call : AddCall) :
    ∀ n ∈ call.asked room vars, 0 < n := by
  cases call with
  | ai id pre slaveAddr devType devNum => exact fun n hn =>
    (List.eq_of_mem_replicate hn).symm ▸ Nat.zero_lt_two
  | ttl devType1 id pre slaveAddr devType devNum =>
    exact fun n hn => (List.eq_of_mem_replicate hn).symm ▸ Nat.zero_lt_one
  | json obj devType devNum proto => exact (regsLoop_sizes "" 0 0 0 0 room vars (regsOf obj)).2.2

/-- Several variables that a JSON description lays at the highest start share its registers. -/
theorem AddCall.not_placed_of_stuck {room : ℕ} {vars : List ExtDataCfg} {call : AddCall}
    (h : ¬ call.Refused vars)
    (hrecounts : call.recounts = true) (hlen : 1 < (call.asked room vars).length)
    (hnext : ¬ NextBehind vars)
    {lo hi : ℕ} {old : List Span} :
    ¬ Placed lo hi old ((call.run room vars).2.map fun d => d.span) := by
  cases call with
  | ai id pre slaveAddr devType devNum => cases hrecounts
  | ttl devType1 id pre slaveAddr devType devNum => cases hrecounts
  | json obj devType devNum proto =>
    obtain ⟨group, -, hrun⟩ := varmanageAddDevWithJson_loop room h
    have hpos := asked_pos room vars (.json obj devType devNum proto)
    have hstuck :=
      (regsLoop_spans group (obj.getInt "slave" (-1)) devType devNum proto room vars
      (regsOf obj)).2 hnext
    rw [asked, ← (regsLoop_sizes group (obj.getInt "slave" (-1)) devType devNum proto room vars
      (regsOf obj)).1] at hlen hpos
    rw [run, hrun]
    intro hplaced
    match (regsLoop group (obj.getInt "slave" (-1)) devType devNum proto room vars (regsOf obj)).2,
      hlen, hpos, hstuck,
      hplaced with
    | d :: e :: rest, _, hpos, hstuck, hplaced =>
      obtain ⟨hd, hstuck⟩ := List.forall_mem_cons.mp hstuck
      have he := hstuck e List.mem_cons_self
      refine (List.pairwise_cons.mp hplaced.pairwise).1 e.span List.mem_cons_self d.span.start
        ⟨⟨le_rfl, ?_⟩, ?_, ?_⟩
      · exact Nat.lt_add_of_pos_right (hpos d.span.size List.mem_cons_self)
      · rw [hd, he]
      · rw [hd, ← he]
        exact Nat.lt_add_of_pos_right (hpos e.span.size (List.mem_cons_of_mem _ List.mem_cons_self))

/-- The next address is behind the highest start unless the first of the variables that start
highest has no register. -/
theorem nextBehind_iff {vars : List ExtDataCfg} (h : DisjointVars vars) :
    NextBehind vars ↔ ∀ w, FirstHighest vars w → w.span.size ≠ 0 := by
  rw [NextBehind, UInt16.lt_iff_toNat_lt]
  rcases varMaxAddr_cases vars with ⟨hmax, hlow⟩ | ⟨w, hw, hmax⟩
  · rw [varGetNextAddr_of_low hlow, hmax]
    exact iff_of_true (by decide) fun w hw => absurd (hlow w hw.mem) (Nat.not_le.mpr hw.1)
  · rw [varGetNextAddr_of_firstHighest h hw, hmax]
    constructor
    · intro hlt w' hw'
      obtain rfl := hw.unique hw'
      exact (Nat.pos_of_lt_add_right hlt).ne'
    · intro hsize
      exact Nat.lt_add_of_pos_right (Nat.pos_of_ne_zero (hsize w hw))

/-- The registers of the created variables lie in the region and are no other variable's, and a call
for whose variables there is no place left fails. -/
def AllocatesFree (vars : List ExtDataCfg) (wanted : List ℕ) (result : ℤ × List ExtDataCfg) : Prop :=
  Placed 1024 10241 (vars.map fun v => v.span) (result.2.map fun d => d.span) ∧
    ((¬ ∃ spans, spans.map Span.size = wanted ∧
    Placed 1024 10241 (vars.map fun v => v.span) spans) → result.1 ≠ 0)

/-- The call creates nothing; or the next address is free, the region has room for the variables
behind every other one, and those of a JSON description are not laid at the highest start. -/
def AddCall.HasRoom (room : ℕ) (vars : List ExtDataCfg) (call : AddCall) : Prop :=
  call.Refused vars ∨ call.asked room vars = [] ∨
    (NextFree vars ∧ 1025 + (call.asked room vars).sum ≤ 10241 ∧
      (∀ v ∈ vars, v.span.stop + (call.asked room vars).sum ≤ 10241) ∧
      (call.recounts = true → 1 < (call.asked room vars).length → ∀ w, FirstHighest vars w →
        w.span.size ≠ 0))

/-- The region has room behind the next address exactly when it has behind every variable. -/
theorem next_add_le_iff {vars : List ExtDataCfg} (h : DisjointVars vars) (hfree : NextFree vars)
    (n hi : ℕ) :
    (varGetNextAddr vars).toNat + n ≤ hi ↔ 1025 + n ≤ hi ∧ ∀ v ∈ vars, v.span.stop + n ≤ hi := by
  constructor
  · intro hnext
    exact ⟨(Nat.add_le_add_right h.start_le_next.1 n).trans hnext,
      fun v hv => (Nat.add_le_add_right ((nextFree_iff h).mp hfree v hv) n).trans hnext⟩
  · rintro ⟨hlow, hstop⟩
    rcases varMaxAddr_cases vars with ⟨-, hlow'⟩ | ⟨w, hw, -⟩
    · rwa [varGetNextAddr_of_low hlow']
    · rw [varGetNextAddr_of_firstHighest h hw]
      exact hstop w hw.mem

/-- What a call that is not refused lays is placed exactly when the call has room. -/
theorem AddCall.placed_iff {room : ℕ} {vars : List ExtDataCfg} {call : AddCall} (h : DisjointVars vars)
    (hrefused : ¬ call.Refused vars) :
    Placed 1024 10241 (vars.map fun v => v.span) ((call.run room vars).2.map fun d => d.span) ↔
      call.HasRoom room vars := by
  have hbehind := nextBehind_iff h
  by_cases hstuck : call.recounts = true ∧ 1 < (call.asked room vars).length ∧ ¬ NextBehind vars
  · obtain ⟨hrecounts, hlen, hnext⟩ := hstuck
    refine iff_of_false (not_placed_of_stuck hrefused hrecounts hlen hnext) ?_
    rintro (hrefused' | hnil | ⟨-, -, -, hhigh⟩)
    · exact hrefused hrefused'
    · rw [hnil] at hlen
      cases hlen
    · exact hnext (hbehind.mpr (hhigh hrecounts hlen))
  · have hhigh : call.recounts = true → 1 < (call.asked room vars).length → NextBehind vars := by
      intro hrecounts hlen
      by_contra hnext
      exact hstuck ⟨hrecounts, hlen, hnext⟩
    have hlaid := run_laid room hrefused
    have hsizes : ((call.run room vars).2.map fun d => d.span).map Span.size =
        call.asked room vars := by
      rw [List.map_map]
      exact hlaid.sizes
    rw [HasRoom, or_iff_right hrefused]
    by_cases hnil : call.asked room vars = []
    · rw [hnil, List.map_eq_nil_iff] at hsizes
      rw [hsizes]
      exact iff_of_true ⟨fun s hs => (nomatch hs), fun s hs => (nomatch hs), List.Pairwise.nil⟩
        (Or.inl hnil)
    · rw [or_iff_right hnil]
      have hne : ((call.run room vars).2.map fun d => d.span) ≠ [] := by
        intro hempty
        rw [hempty] at hsizes
        exact hnil hsizes.symm
      have hpos : ∀ s ∈ (call.run room vars).2.map fun d => d.span, 0 < s.size := by
        intro s hs
        refine asked_pos room vars call s.size ?_
        rw [← hsizes]
        exact List.mem_map_of_mem hs
      rw [(hlaid.chained hhigh).placed_iff hne hpos (List.forall_mem_map.mpr h.start_le_next.2),
        hsizes, List.forall_mem_map,
        ← nextFree_iff h]
      constructor
      · rintro ⟨hfree, -, hsum⟩
        obtain ⟨hlow, hstop⟩ := (next_add_le_iff h hfree _ _).mp hsum
        exact ⟨hfree, hlow, hstop, fun hrecounts hlen => hbehind.mp (hhigh hrecounts hlen)⟩
      · rintro ⟨hfree, hlow, hstop, -⟩
        exact ⟨hfree, (Nat.le_succ 1024).trans h.start_le_next.1,
          (next_add_le_iff h hfree _ _).mpr ⟨hlow, hstop⟩⟩

/-- A call that succeeds has created all it wanted. -/
theorem AddCall.sizes_of_done {room : ℕ} {vars : List ExtDataCfg} {call : AddCall}
    (h : (call.run room vars).1 = 0) :
    ((call.run room vars).2.map fun d => d.span).map Span.size = call.wanted := by
  have hlaid := run_laid room fun hrefused => (run_refused room hrefused).1 h
  rw [List.map_map, ← hlaid.done h]
  exact hlaid.sizes

/-- The calls that create variables give them registers of the region that no other variable has,
and fail when there are none left, exactly when the next address is free and the region has room
behind all variables. -/
theorem addCall_allocatesFree_iff (room : ℕ) (vars : List ExtDataCfg) (call : AddCall)
    (h : DisjointVars vars) :
    AllocatesFree vars call.wanted (call.run room vars) ↔ call.HasRoom room vars := by
  by_cases hrefused : call.Refused vars
  · obtain ⟨hrc, hcreated⟩ := AddCall.run_refused room hrefused
    rw [AllocatesFree, hcreated]
    exact iff_of_true ⟨⟨fun s hs => (nomatch hs), fun s hs => (nomatch hs), List.Pairwise.nil⟩,
      fun _ => hrc⟩
      (Or.inl hrefused)
  · rw [AllocatesFree, AddCall.placed_iff h hrefused]
    refine and_iff_left_of_imp fun hroom hleft hrc => hleft ⟨_, AddCall.sizes_of_done hrc, ?_⟩
    exact (AddCall.placed_iff h hrefused).mpr hroom

/-- A value of two registers. -/
def floatAt (addr : UInt16) : ExtDataCfg :=
  { szName := "T", szGroup := "G", xIo := createdIo .float .float 0 0 0 3 1 0 addr }

/-- A value alone in the region is apart from all others. -/
theorem disjointVars_floatAt {addr : UInt16} (haddr : 1024 ≤ addr.toNat ∧ addr.toNat + 2 ≤ 10241) :
    DisjointVars [floatAt addr] := by
  refine ⟨fun v hv => ?_, List.pairwise_singleton _ _⟩
  have hspan : (floatAt addr).span = ⟨addr.toNat, 2⟩ :=
    congrArg (Span.mk addr.toNat) (show typeRegs .float = 2 by decide)
  rw [List.mem_singleton.mp hv, hspan]
  exact (Span.within_iff Nat.zero_lt_two).mpr haddr

/-- Behind a value that does not start the region the eight inputs get registers of their own. -/
theorem addCall_allocatesFree_floatAt :
    AllocatesFree [floatAt 1025] (List.replicate 8 2) (varAddAi 8 [floatAt 1025] "1" "A" 1 0 0) := by
  refine (addCall_allocatesFree_iff 8 [floatAt 1025] (.ai "1" "A" 1 0 0)
    (disjointVars_floatAt (by decide))).mpr ?_
  refine Or.inr (Or.inr ⟨⟨fun hlow => absurd (hlow _ List.mem_cons_self) (by decide),
    fun w hw hsize => ?_⟩, by decide,
    by decide, fun h => (nomatch h)⟩)
  rw [List.mem_singleton.mp hw.mem] at hsize
  exact absurd hsize (by decide)

/-- The first of the eight inputs gets the second register of the value that starts the region. -/
theorem not_allocatesFree_floatAt :
    ¬ ∀ room vars (call : AddCall), DisjointVars vars →
      AllocatesFree vars call.wanted (call.run room vars) := by
  intro h
  have hplaced := (h 8 [floatAt 1024] (.ai "1" "A" 1 0 0) (disjointVars_floatAt (by decide))).1
  have hfirst : (⟨1025, 2⟩ : Span) ∈ (AddCall.run 8 [floatAt 1024] (.ai "1" "A" 1 0 0)).2.map
      fun d => d.span := by
    decide
  exact hplaced.apart _ hfirst ⟨1024, 2⟩ (by decide) 1025 ⟨⟨by decide, by decide⟩,
    ⟨by decide, by decide⟩⟩

end DasEdge.VarManage
