import DasEdge.Library.GuardedRun
import DasEdge.VarManage.Refresh

/-!
# The storage averagers

A refresh adds the value of a variable to its three averagers in `__update_value`. The collector
task of a device copies a variable in `__GetExtDataWithIndex`, stores the averages of the copy that
are due, and clears the averagers of the first variable with the copy's name, each in a critical
section of its own; the refreshes of all tasks and of Modbus writes come in between. The sum in
`val_avg` is kept as the list of the values that were added, and `val_cur` is left out.
-/

namespace DasEdge.VarManage

/-- The storage averagers `xAvgReal`, `xAvgMin` and `xAvgHour`. -/
inductive Averager where
  | real | min | hour
  deriving DecidableEq

/-- `VarAvg_t` -/
structure VarAvg where
  time : UInt64 := 0
  count : UInt32 := 0
  valAvg : List UInt64 := []

/-- A variable with the fields of `ExtData_Storage_t` that the collector task reads. -/
structure StoredData where
  data : ExtData
  bEnable : Bool
  ulStep : UInt32

/-- The device that a collector task serves: `dev_type` and `dev_num`. -/
abbrev Device := UInt16 × UInt16

/-- The device of a variable. -/
def StoredData.device (v : StoredData) : Device := (v.data.xIo.usDevType, v.data.xIo.usDevNum)

/-- A task that holds a copy of the variable at `n`: the averagers that it has not finished yet, and
whether it has stored the average of the first of them. -/
structure Collecting where
  n : ℕ
  copy : Averager → VarAvg
  todo : List Averager
  stored : Bool

/-- The averagers of the variables by position, and the collector tasks by device. -/
structure StorageState where
  avg : ℕ → Averager → VarAvg
  tasks : Device → Option Collecting

/-- The steps: `__update_value` for a variable with a value; a task copies a variable, looks at its next
averager, and clears it. The last two read the tick. -/
inductive StorageAction where
  | update (i : ℕ) (value : UInt64)
  | copy (device : Device) (n : ℕ)
  | check (device : Device) (tick : UInt64)
  | clear (device : Device) (tick : UInt64)

/-- What a step shows: a refresh, an average that is stored, or nothing. -/
inductive StorageOut where
  | refreshed (i : ℕ) (value : UInt64)
  | stored (n : ℕ) (a : Averager) (values : List UInt64)
  | silent
  deriving DecidableEq

/-- The time that an averager collects for, in milliseconds. -/
def averagerPeriod (v : StoredData) : Averager → UInt64
  | .real => (v.ulStep * 60 * 1000).toUInt64
  | .min => 60 * 1000
  | .hour => 60 * 60 * 1000

/-- The average of the copy is stored. -/
def averageDue (v : StoredData) (a : Averager) (copy : VarAvg) (tick : UInt64) : Bool :=
  averagerPeriod v a ≤ tick - copy.time && 0 < copy.count

/-- `__update_value` of one averager. -/
def updateAvg (avg : VarAvg) (value : UInt64) : VarAvg :=
  { avg with valAvg := avg.valAvg ++ [value], count := avg.count + 1 }

/-- `__GetExtDataWithName`: the position of the first variable with a name. -/
def getStoredWithName (vars : List StoredData) (name : String) : Option ℕ :=
  vars.findIdx? fun v => v.data.szName = name

/-- The task after it is done with an averager. -/
def nextAverager (c : Collecting) (rest : List Averager) : Option Collecting :=
  if rest = [] then none else some { c with todo := rest, stored := false }

/-- A step of the storage, unless the task is elsewhere. -/
def storageStep (vars : List StoredData) (gEnable : Bool) (s : StorageState) :
    StorageAction → Option (StorageOut × StorageState)
  | .update i value =>
    match vars[i]? with
    | none => none
    | some v =>
      if typedSize v.data.xIo.btOutVarType = 0 then some (.silent, s)
      else some (.refreshed i value,
        { s with avg := Function.update s.avg i fun a => updateAvg (s.avg i a) value })
  | .copy device n =>
    match s.tasks device, vars[n]? with
    | none, some v =>
      if v.device = device && prvCheckExeDataEnable v.data && gEnable && v.bEnable then
        some (.silent, { s with
          tasks := Function.update s.tasks device (some ⟨n, s.avg n, [.real, .min, .hour], false⟩) })
      else some (.silent, s)
    | _, _ => none
  | .check device tick =>
    match s.tasks device with
    | some ⟨n, copy, a :: rest, false⟩ =>
      match vars[n]? with
      | some v =>
        if averageDue v a (copy a) tick then
          some (.stored n a (copy a).valAvg,
            { s with tasks := Function.update s.tasks device (some ⟨n, copy, a :: rest, true⟩) })
        else
          some (.silent,
            { s with tasks := Function.update s.tasks device (nextAverager ⟨n, copy, a :: rest, false⟩ rest) })
      | none => none
    | _ => none
  | .clear device tick =>
    match s.tasks device with
    | some ⟨n, copy, a :: rest, true⟩ =>
      match vars[n]? with
      | some v =>
        let tasks := Function.update s.tasks device (nextAverager ⟨n, copy, a :: rest, true⟩ rest)
        match getStoredWithName vars v.data.szName with
        | some i =>
          some (.silent,
            { avg := Function.update s.avg i (Function.update (s.avg i) a { time := tick })
              tasks := tasks })
        | none => some (.silent, { s with tasks := tasks })
      | none => none
    | _ => none

/-- The averagers are empty and no task is busy. -/
def StorageState.initial : StorageState := ⟨fun _ _ => {}, fun _ => none⟩

end DasEdge.VarManage

/-!
# Runs of the storage averagers

What a task copied stays a prefix of what the averager holds, as long as nobody clears it. So the
values that are stored, followed by those that wait in the averager, are the refreshed values in
order; and clearing keeps this when the averager holds just what was copied.
-/

namespace DasEdge.VarManage

open DasEdge.Library

/-- The values that a variable was refreshed with. -/
def refreshesOf (i : ℕ) (outs : List StorageOut) : List UInt64 :=
  outs.filterMap fun
    | .refreshed j value => if j = i then some value else none
    | _ => none

/-- The intervals that were stored for an averager. -/
def storedOf (i : ℕ) (a : Averager) (outs : List StorageOut) : List (List UInt64) :=
  outs.filterMap fun
    | .stored n b values => if n = i ∧ b = a then some values else none
    | _ => none

/-- Each refresh of a variable is in exactly one stored interval of each averager, or in none and
still in the averager. -/
def SamplesOk (vars : List StoredData) (outs : List StorageOut) (s : StorageState) : Prop :=
  ∀ i v, vars[i]? = some v → ∀ a, ∃ rest,
    refreshesOf i outs = (storedOf i a outs).flatten ++ rest ∧ rest <:+ (s.avg i a).valAvg

/-- A task clears the averager that it copied, and this still holds just what was copied. -/
def ClearsCopied (vars : List StoredData) (s : StorageState) : StorageAction → Prop
  | .clear device _ => ∀ n copy a rest v, s.tasks device = some ⟨n, copy, a :: rest, true⟩ →
    vars[n]? = some v →
    getStoredWithName vars v.data.szName = some n ∧ (s.avg n a).valAvg = (copy a).valAvg
  | _ => True

/-- What a task holds of an averager that it has not finished. -/
def heldValues (task : Option Collecting) (i : ℕ) (a : Averager) : List UInt64 :=
  match task with
  | none => []
  | some c => if c.n = i ∧ a ∈ c.todo then (c.copy a).valAvg else []

/-- What a task has stored of an averager and not cleared. -/
def storedValues (task : Option Collecting) (i : ℕ) (a : Averager) : List UInt64 :=
  match task with
  | none => []
  | some c => if c.n = i ∧ c.stored = true ∧ c.todo.head? = some a then (c.copy a).valAvg else []

/-- What holds in every state: tasks hold copies of variables of their device, what they hold starts the
averager, and the averager holds what is stored and not cleared, followed by the values not stored. -/
structure StorageInv (vars : List StoredData) (outs : List StorageOut) (s : StorageState) : Prop where
  device : ∀ d c, s.tasks d = some c → ∃ v, vars[c.n]? = some v ∧ v.device = d
  nodup : ∀ d c, s.tasks d = some c → c.todo.Nodup
  held : ∀ i v, vars[i]? = some v → ∀ a, heldValues (s.tasks v.device) i a <+: (s.avg i a).valAvg
  samples : ∀ i v, vars[i]? = some v → ∀ a, ∃ rest,
    (s.avg i a).valAvg = storedValues (s.tasks v.device) i a ++ rest ∧
      refreshesOf i outs = (storedOf i a outs).flatten ++ rest

/-- The invariant has the samples right. -/
theorem StorageInv.samplesOk {vars : List StoredData} {outs : List StorageOut} {s : StorageState}
    (h : StorageInv vars outs s) : SamplesOk vars outs s := by
  intro i v hv a
  obtain ⟨rest, havg, hrefreshes⟩ := h.samples i v hv a
  exact ⟨rest, hrefreshes, _, havg.symm⟩

/-- At the start nothing is held. -/
theorem storageInv_initial (vars : List StoredData) : StorageInv vars [] StorageState.initial where
  device := fun _ _ h => nomatch h
  nodup := fun _ _ h => nomatch h
  held := fun _ _ _ _ => List.nil_prefix
  samples := fun _ _ _ _ => ⟨[], rfl, rfl⟩

/-- The refreshes that a step adds. -/
theorem refreshesOf_append (i : ℕ) (outs : List StorageOut) (out : StorageOut) :
    refreshesOf i (outs ++ [out]) = refreshesOf i outs ++ refreshesOf i [out] := List.filterMap_append

/-- The intervals that a step adds. -/
theorem storedOf_append (i : ℕ) (a : Averager) (outs : List StorageOut) (out : StorageOut) :
    storedOf i a (outs ++ [out]) = storedOf i a outs ++ storedOf i a [out] := List.filterMap_append

/-- A step that stores nothing and refreshes nothing, with the tasks as they are. -/
theorem StorageInv.silent {vars : List StoredData} {outs : List StorageOut} {s : StorageState}
    (h : StorageInv vars outs s) : StorageInv vars (outs ++ [.silent]) s := by
  refine ⟨h.device, h.nodup, h.held, fun i v hv a => ?_⟩
  obtain ⟨rest, havg, hrefreshes⟩ := h.samples i v hv a
  refine ⟨rest, havg, ?_⟩
  rw [refreshesOf_append, storedOf_append]
  exact (List.append_nil _).trans (hrefreshes.trans (by simp [storedOf]))

/-- A refresh adds its value to the end of each averager of its variable. -/
theorem StorageInv.update {vars : List StoredData} {outs : List StorageOut} {s : StorageState}
    (h : StorageInv vars outs s) (i : ℕ) (value : UInt64) :
    StorageInv vars (outs ++ [.refreshed i value])
      { s with avg := Function.update s.avg i fun a => updateAvg (s.avg i a) value } := by
  refine ⟨h.device, h.nodup, fun j v hv a => ?_, fun j v hv a => ?_⟩
  · by_cases hj : j = i
    · subst hj
      simp only [Function.update_self]
      exact (h.held j v hv a).trans (List.prefix_append _ _)
    · simp only [Function.update_of_ne hj]
      exact h.held j v hv a
  · obtain ⟨rest, havg, hrefreshes⟩ := h.samples j v hv a
    rw [refreshesOf_append, storedOf_append, hrefreshes]
    by_cases hj : j = i
    · subst hj
      refine ⟨rest ++ [value], ?_, ?_⟩
      · simp only [Function.update_self, updateAvg]
        rw [havg, List.append_assoc]
      · simp [refreshesOf, storedOf]
    · refine ⟨rest, ?_, ?_⟩
      · simp only [Function.update_of_ne hj]
        exact havg
      · simp [refreshesOf, storedOf, Ne.symm hj]

/-- A task of a device goes on without storing or clearing anything, and holds no more than the
averagers do. -/
theorem StorageInv.setTask {vars : List StoredData} {outs : List StorageOut} {s : StorageState}
    (h : StorageInv vars outs s) (d : Device) (task : Option Collecting)
    (hdevice : ∀ c, task = some c → (∃ v, vars[c.n]? = some v ∧ v.device = d) ∧ c.todo.Nodup)
    (hheld : ∀ i v, vars[i]? = some v → v.device = d → ∀ a, heldValues task i a <+: (s.avg i a).valAvg)
    (hbefore : ∀ i a, storedValues (s.tasks d) i a = []) (hafter : ∀ i a, storedValues task i a = []) :
    StorageInv vars (outs ++ [.silent]) { s with tasks := Function.update s.tasks d task } := by
  refine ⟨fun e c hc => ?_, fun e c hc => ?_, fun i v hv a => ?_, fun i v hv a => ?_⟩
  · by_cases he : e = d
    · subst he
      simp only [Function.update_self] at hc
      exact (hdevice c hc).1
    · simp only [Function.update_of_ne he] at hc
      exact h.device e c hc
  · by_cases he : e = d
    · subst he
      simp only [Function.update_self] at hc
      exact (hdevice c hc).2
    · simp only [Function.update_of_ne he] at hc
      exact h.nodup e c hc
  · by_cases he : v.device = d
    · simp only [he, Function.update_self]
      exact hheld i v hv he a
    · simp only [Function.update_of_ne he]
      exact h.held i v hv a
  · obtain ⟨rest, havg, hrefreshes⟩ := h.silent.samples i v hv a
    refine ⟨rest, ?_, hrefreshes⟩
    by_cases he : v.device = d
    · rw [he, hbefore] at havg
      simp only [he, Function.update_self, hafter]
      exact havg
    · simp only [Function.update_of_ne he]
      exact havg

/-- Behind its last averager a task holds nothing; before, it holds what is left to do. -/
theorem heldValues_nextAverager (n : ℕ) (copy : Averager → VarAvg) (todo rest : List Averager)
    (stored : Bool) (i : ℕ)
    (a : Averager) :
    heldValues (nextAverager ⟨n, copy, todo, stored⟩ rest) i a = if n = i ∧
      a ∈ rest then (copy a).valAvg else [] := by
  rw [nextAverager]
  split
  · next hnil => simp [heldValues, hnil]
  · rfl

/-- A task that goes on to its next averager has not stored it. -/
theorem storedValues_nextAverager (c : Collecting) (rest : List Averager) (i : ℕ) (a : Averager) :
    storedValues (nextAverager c rest) i a = [] := by
  rw [nextAverager]
  split
  · rfl
  · simp [storedValues]

/-- A task that goes on is still a task of its device. -/
theorem nextAverager_some {c c' : Collecting} {rest : List Averager}
    (h : nextAverager c rest = some c') :
    c'.n = c.n ∧ c'.todo = rest := by
  rw [nextAverager] at h
  split at h
  · cases h
  · cases h
    exact ⟨rfl, rfl⟩

/-- A task that looks at an averager and does not store it goes on. -/
theorem StorageInv.skip {vars : List StoredData} {outs : List StorageOut} {s : StorageState}
    (h : StorageInv vars outs s) {d : Device} {n : ℕ} {copy : Averager → VarAvg} {a : Averager}
    {rest : List Averager}
    (htask : s.tasks d = some ⟨n, copy, a :: rest, false⟩) :
    StorageInv vars (outs ++ [.silent])
      { s with tasks := Function.update s.tasks d (nextAverager ⟨n, copy, a :: rest, false⟩ rest) } := by
  apply h.setTask
  · intro c hc
    obtain ⟨hn, htodo⟩ := nextAverager_some hc
    rw [hn, htodo]
    exact ⟨h.device d _ htask, (List.nodup_cons.mp (h.nodup d _ htask)).2⟩
  · intro i v hv hvd b
    have hheld := h.held i v hv b
    rw [hvd, htask] at hheld
    rw [heldValues_nextAverager]
    split
    · next hmem =>
      rw [heldValues, if_pos ⟨hmem.1, List.mem_cons_of_mem a hmem.2⟩] at hheld
      exact hheld
    · exact List.nil_prefix
  · intro i b
    simp [htask, storedValues]
  · intro i b
    exact storedValues_nextAverager _ rest i b

/-- A task that is idle copies a variable of its device. -/
theorem StorageInv.copy {vars : List StoredData} {outs : List StorageOut} {s : StorageState}
    (h : StorageInv vars outs s) {d : Device} {n : ℕ} {v : StoredData} (htask : s.tasks d = none)
    (hv : vars[n]? = some v) (hdevice : v.device = d) :
    StorageInv vars (outs ++ [.silent])
      { s with tasks := Function.update s.tasks d (some ⟨n, s.avg n, [.real, .min, .hour], false⟩) } := by
  apply h.setTask
  · rintro c ⟨⟩
    have hnodup : [Averager.real, .min, .hour].Nodup := by decide
    exact ⟨⟨v, hv, hdevice⟩, hnodup⟩
  · intro i w _ _ a
    rw [heldValues]
    split
    · next hmem => rw [← hmem.1]
    · exact List.nil_prefix
  · intro i a
    rw [htask]
    rfl
  · intro i a
    simp [storedValues]

/-- A task stores the average of its copy. -/
theorem StorageInv.store {vars : List StoredData} {outs : List StorageOut} {s : StorageState}
    (h : StorageInv vars outs s) {d : Device} {n : ℕ} {copy : Averager → VarAvg} {a : Averager}
    {rest : List Averager}
    (htask : s.tasks d = some ⟨n, copy, a :: rest, false⟩) :
    StorageInv vars (outs ++ [.stored n a (copy a).valAvg])
      { s with tasks := Function.update s.tasks d (some ⟨n, copy, a :: rest, true⟩) } := by
  obtain ⟨v, hv, hvd⟩ := h.device d _ htask
  refine ⟨fun e c hc => ?_, fun e c hc => ?_, fun i w hw b => ?_, fun i w hw b => ?_⟩
  · by_cases he : e = d
    · subst he
      simp only [Function.update_self] at hc
      cases hc
      exact ⟨v, hv, hvd⟩
    · simp only [Function.update_of_ne he] at hc
      exact h.device e c hc
  · by_cases he : e = d
    · subst he
      simp only [Function.update_self] at hc
      cases hc
      have hnodup := h.nodup e _ htask
      exact hnodup
    · simp only [Function.update_of_ne he] at hc
      exact h.nodup e c hc
  · by_cases he : w.device = d
    · have hheld := h.held i w hw b
      rw [he, htask] at hheld
      simp only [he, Function.update_self]
      exact hheld
    · simp only [Function.update_of_ne he]
      exact h.held i w hw b
  · obtain ⟨left, havg, hrefreshes⟩ := h.samples i w hw b
    rw [refreshesOf_append, storedOf_append]
    by_cases hsame : n = i ∧ a = b
    · -- what the task holds moves from the averager's values to the stored ones
      obtain ⟨rfl, rfl⟩ := hsame
      have hwv : w = v := Option.some.inj (hw.symm.trans hv)
      subst hwv
      obtain ⟨left', hheld⟩ := h.held n w hw a
      rw [hvd, htask, heldValues, if_pos ⟨rfl, List.mem_cons_self⟩] at hheld
      have hnone : storedValues (s.tasks w.device) n a = [] := by simp [hvd, htask, storedValues]
      rw [hnone, List.nil_append] at havg
      refine ⟨left', ?_, ?_⟩
      · simp [hvd, storedValues, hheld]
      · rw [hrefreshes, ← havg, ← hheld]
        simp [refreshesOf, storedOf]
    · have hother : storedValues (some ⟨n, copy, a :: rest, true⟩) i b = [] :=
        if_neg fun hmem => hsame ⟨hmem.1, Option.some.inj hmem.2.2⟩
      refine ⟨left, ?_, ?_⟩
      · by_cases he : w.device = d
        · have hnone : storedValues (s.tasks d) i b = [] := by simp [htask, storedValues]
          rw [he, hnone] at havg
          simp only [he, Function.update_self]
          rw [hother]
          exact havg
        · simp only [Function.update_of_ne he]
          exact havg
      · rw [hrefreshes]
        have hnone : storedOf i b [.stored n a (copy a).valAvg] = [] := by simp [storedOf, hsame]
        simp [hnone, refreshesOf]

/-- A task clears an averager that holds just what it stored. -/
theorem StorageInv.clear {vars : List StoredData} {outs : List StorageOut} {s : StorageState}
    (h : StorageInv vars outs s) {d : Device} {n : ℕ} {copy : Averager → VarAvg} {a : Averager}
    {rest : List Averager}
    (htask : s.tasks d = some ⟨n, copy, a :: rest, true⟩)
    (hcopied : (s.avg n a).valAvg = (copy a).valAvg)
    (tick : UInt64) :
    StorageInv vars (outs ++ [.silent])
      { avg := Function.update s.avg n (Function.update (s.avg n) a { time := tick })
        tasks := Function.update s.tasks d (nextAverager ⟨n, copy, a :: rest, true⟩ rest) } := by
  obtain ⟨v, hv, hvd⟩ := h.device d _ htask
  obtain ⟨hnotMem, hnodup⟩ := List.nodup_cons.mp (h.nodup d _ htask)
  have hclearedAvg : Function.update s.avg n (Function.update (s.avg n) a { time := tick }) n a =
      { time := tick } := by
    rw [Function.update_self, Function.update_self]
  have hotherAvg : ∀ i b, ¬ (n = i ∧ a = b) →
      Function.update s.avg n (Function.update (s.avg n) a { time := tick }) i b = s.avg i b := by
    intro i b hne
    by_cases hi : i = n
    · subst hi
      rw [Function.update_self, Function.update_of_ne (fun hb => hne ⟨rfl, hb.symm⟩)]
    · rw [Function.update_of_ne hi]
  refine ⟨fun e c hc => ?_, fun e c hc => ?_, fun i w hw b => ?_, fun i w hw b => ?_⟩
  · by_cases he : e = d
    · subst he
      simp only [Function.update_self] at hc
      rw [(nextAverager_some hc).1]
      exact ⟨v, hv, hvd⟩
    · simp only [Function.update_of_ne he] at hc
      exact h.device e c hc
  · by_cases he : e = d
    · subst he
      simp only [Function.update_self] at hc
      rw [(nextAverager_some hc).2]
      exact hnodup
    · simp only [Function.update_of_ne he] at hc
      exact h.nodup e c hc
  · have hheld := h.held i w hw b
    by_cases he : w.device = d
    · rw [he, htask] at hheld
      simp only [he, Function.update_self]
      rw [heldValues_nextAverager]
      split
      · next hmem =>
        have hne : ¬ (n = i ∧ a = b) := fun hsame => hnotMem (hsame.2 ▸ hmem.2)
        rw [heldValues, if_pos ⟨hmem.1, List.mem_cons_of_mem a hmem.2⟩] at hheld
        rw [hotherAvg i b hne]
        exact hheld
      · exact List.nil_prefix
    · have hne : ¬ (n = i ∧ a = b) := by
        rintro ⟨rfl, -⟩
        exact he (Option.some.inj (hw.symm.trans hv) ▸ hvd)
      simp only [Function.update_of_ne he]
      rw [hotherAvg i b hne]
      exact hheld
  · obtain ⟨left, havg, hrefreshes⟩ := h.silent.samples i w hw b
    refine ⟨left, ?_, hrefreshes⟩
    by_cases hsame : n = i ∧ a = b
    · obtain ⟨rfl, rfl⟩ := hsame
      have hwv : w = v := Option.some.inj (hw.symm.trans hv)
      subst hwv
      rw [hvd, htask, hcopied, storedValues, if_pos ⟨rfl, rfl, rfl⟩] at havg
      have hleft : left = [] := List.self_eq_append_right.mp havg
      simp only [hclearedAvg, hvd, Function.update_self]
      rw [storedValues_nextAverager, hleft]
      rfl
    · simp only
      rw [hotherAvg i b hsame]
      by_cases he : w.device = d
      · have hnone : storedValues (s.tasks d) i b = [] := by
          rw [htask]
          exact if_neg fun hmem => hsame ⟨hmem.1, Option.some.inj hmem.2.2⟩
        rw [he, hnone] at havg
        rw [he, Function.update_self, storedValues_nextAverager]
        exact havg
      · rw [Function.update_of_ne he]
        exact havg

/-- Every step that clears only what was copied keeps the invariant. -/
theorem storageStep_keeps {vars : List StoredData} {gEnable : Bool} {outs : List StorageOut}
    {s s' : StorageState}
    {action : StorageAction} {out : StorageOut} (h : StorageInv vars outs s)
    (hguard : ClearsCopied vars s action)
    (hstep : storageStep vars gEnable s action = some (out, s')) :
    StorageInv vars (outs ++ [out]) s' := by
  cases action with
  | update i value =>
    simp only [storageStep] at hstep
    split at hstep
    · cases hstep
    · split at hstep
      · cases hstep
        exact h.silent
      · cases hstep
        exact h.update i value
  | copy d n =>
    simp only [storageStep] at hstep
    split at hstep
    · next v htask hv =>
      split at hstep
      · next hgo =>
        cases hstep
        simp only [Bool.and_eq_true, decide_eq_true_eq] at hgo
        exact h.copy htask hv hgo.1.1.1
      · cases hstep
        exact h.silent
    · cases hstep
  | check d tick =>
    simp only [storageStep] at hstep
    split at hstep
    · next n copy a rest htask =>
      split at hstep
      · split at hstep
        · cases hstep
          exact h.store htask
        · cases hstep
          exact h.skip htask
      · cases hstep
    · cases hstep
  | clear d tick =>
    simp only [storageStep] at hstep
    split at hstep
    · next n copy a rest htask =>
      split at hstep
      · next v hv =>
        obtain ⟨hname, hcopied⟩ := hguard n copy a rest v htask hv
        rw [hname] at hstep
        cases hstep
        exact h.clear htask hcopied tick
      · cases hstep
    · cases hstep

/-- In every run in which each clear finds the averager as it was copied, each refresh is in exactly
one stored interval of each averager or still in the averager. -/
theorem storageRun_samplesOk (vars : List StoredData) (gEnable : Bool) (actions : List StorageAction)
    (hguard : GuardedRun (storageStep vars gEnable) (ClearsCopied vars) StorageState.initial actions)
    {outs : List StorageOut} {s : StorageState}
    (hrun : runBlocking (storageStep vars gEnable) StorageState.initial actions = some (outs, s)) :
    SamplesOk vars outs s :=
  (runBlocking_keeps _ _ (StorageInv vars)
    (fun _ _ _ _ _ h hclears hstep => storageStep_keeps h hclears hstep)
    (storageInv_initial vars) hguard hrun).samplesOk

/-- A variable whose averages are stored every minute. -/
def storedVariable : StoredData := ⟨{ xIo := { usAddr := 1024 } }, true, 1⟩

/-- Two refreshes, of which the first is stored after a minute and the second comes behind the clear. -/
theorem storageRun_samplesOk_minute :
    ∃ outs s, runBlocking (storageStep [storedVariable] true) StorageState.initial
        [.update 0 7, .copy (0, 0) 0, .check (0, 0) 60000, .clear (0, 0) 60000, .update 0 8] =
          some (outs, s) ∧
      SamplesOk [storedVariable] outs s := by
  refine ⟨_, _, rfl, storageRun_samplesOk [storedVariable] true
    [.update 0 7, .copy (0, 0) 0, .check (0, 0) 60000, .clear (0, 0) 60000, .update 0 8] ?_ rfl⟩
  refine ⟨trivial, trivial, trivial, ?_, trivial, trivial⟩
  rintro n copy a rest v ⟨⟩ ⟨⟩
  exact ⟨rfl, rfl⟩

/-- A refresh between the copy and the clear is lost. -/
theorem storageRun_loses :
    ¬ ∀ (vars : List StoredData) (gEnable : Bool) (actions : List StorageAction)
      (outs : List StorageOut)
      (s : StorageState), runBlocking (storageStep vars gEnable) StorageState.initial actions =
        some (outs, s) →
        SamplesOk vars outs s := by
  intro h
  obtain ⟨rest, hrefreshes, hrest⟩ := h [storedVariable] true
    [.update 0 7, .copy (0, 0) 0, .update 0 8, .check (0, 0) 60000, .clear (0, 0) 60000] _ _ rfl 0
      storedVariable rfl
    .real
  have hnil : rest = [] := List.suffix_nil.mp hrest
  subst hnil
  have hlength := congrArg List.length hrefreshes
  exact absurd hlength (by decide)

end DasEdge.VarManage
