import DasEdge.Board.XferNet
import DasEdge.Board.XferUartTable
import DasEdge.Library.SlotTable
import DasEdge.VarManage.ExtData

/-!
# The collectors of the variables

`varmanage_update` goes over the variables and gives each pair of a device type and a device number a
slot with a thread. The search takes the first slot that is free or has the pair. It finds the pair
wherever it is, because the slots in use are in front of the others: a slot whose thread could not be
created stays free, and the next variable tries it again.
-/

namespace DasEdge.VarManage

open DasEdge.Board DasEdge.Library

/-- `varmanage_run_t` -/
structure VarmanageRun where
  devType : UInt16
  devNum : UInt16
  thread : Option ℕ
  use : Bool
  deriving DecidableEq

/-- `BOARD_COLL_MAX` -/
def boardCollMax : ℕ := boardUartMax + boardTcpipMax

/-- `s_varmanage_run` as it is at the start. -/
def varmanageRunInit : List VarmanageRun := List.replicate boardCollMax ⟨0, 0, none, false⟩

/-- `__varmanage_run_get`, which gives no place for -1. -/
def varmanageRunGet (runs : List VarmanageRun) (devType devNum : UInt16) : Option ℕ :=
  runs.findIdx? fun run =>
    if ¬ run.use then true else decide (run.use ∧ run.devType = devType ∧ run.devNum = devNum)

/-- A variable that `varmanage_update` comes to, and the thread that `rt_thread_create` gives there. -/
structure CollectorVisit where
  node : ExtData
  thread : Option ℕ

/-- The round of `varmanage_update` for a variable. -/
def varmanageVisit (runs : List VarmanageRun) (visit : CollectorVisit) : List VarmanageRun :=
  let xIo := visit.node.xIo
  (varmanageRunGet runs xIo.usDevType xIo.usDevNum).elim runs fun index =>
    (runs[index]?).elim runs fun run =>
      if ¬ run.use then runs.set index ⟨xIo.usDevType, xIo.usDevNum, visit.thread, visit.thread.isSome⟩
      else runs

/-- `varmanage_update` -/
def varmanageUpdate (runs : List VarmanageRun) (visits : List CollectorVisit) : List VarmanageRun :=
  visits.foldl varmanageVisit runs

/-- The slots after some updates. -/
def varmanageUpdates (runs : List VarmanageRun) (updates : List (List CollectorVisit)) :
    List VarmanageRun :=
  updates.foldl varmanageUpdate runs

/-- The pair of a slot in use. -/
def VarmanageRun.pair (run : VarmanageRun) : Option (UInt16 × UInt16) :=
  if run.use then some (run.devType, run.devNum) else none

/-- The pair of a variable. -/
def CollectorVisit.pair (visit : CollectorVisit) : UInt16 × UInt16 :=
  (visit.node.xIo.usDevType, visit.node.xIo.usDevNum)

/-- A thread is created for a variable. -/
def CollectorVisit.Creates (runs : List VarmanageRun) (visit : CollectorVisit) : Prop :=
  ∃ index run, varmanageRunGet runs visit.pair.1 visit.pair.2 = some index ∧ runs[index]? = some run ∧
    run.use = false

/-- Every creation of a thread succeeds. -/
def EachCreated : List VarmanageRun → List CollectorVisit → Prop
  | _, [] => True
  | runs, visit :: visits =>
    (visit.Creates runs → visit.thread.isSome = true) ∧ EachCreated (varmanageVisit runs visit) visits

/-- No pair has two slots, and the slots in use are in front. -/
structure CollectorsOk (runs : List VarmanageRun) : Prop where
  distinct : SlotsDistinct VarmanageRun.pair runs
  front : SlotsInFront VarmanageRun.pair runs

/-- The slots in use stay as they are. -/
def KeepsInUse (runs runs' : List VarmanageRun) : Prop :=
  ∀ (i : ℕ) (run : VarmanageRun), runs[i]? = some run → run.use = true → runs'[i]? = some run

/-- A pair has a slot, or all slots are in use. -/
def Collected (runs : List VarmanageRun) (pair : UInt16 × UInt16) : Prop :=
  (∃ i, SlotHas VarmanageRun.pair runs i pair) ∨ ∀ run ∈ runs, run.use = true

/-- A slot has no pair when it is free. -/
@[simp] theorem VarmanageRun.pair_eq_none {run : VarmanageRun} : run.pair = none ↔ run.use = false := by
  cases hrun : run.use <;> simp [VarmanageRun.pair, hrun]

/-- The search is for the first slot that is free or has the pair. -/
theorem varmanageRunGet_eq (runs : List VarmanageRun) (devType devNum : UInt16) :
    varmanageRunGet runs devType devNum = findSlot VarmanageRun.pair (devType, devNum) runs := by
  rw [varmanageRunGet, findSlot]
  congr 1
  funext run
  cases hrun : run.use <;> simp [VarmanageRun.pair, hrun]

/-- What the round for a variable does. -/
theorem varmanageVisit_cases (runs : List VarmanageRun) (visit : CollectorVisit) :
    (varmanageVisit runs visit = runs ∧ Collected runs visit.pair) ∨
      ∃ index old, findSlot VarmanageRun.pair visit.pair runs = some index ∧ runs[index]? = some old ∧
        old.use = false ∧ visit.Creates runs ∧ varmanageVisit runs visit =
          runs.set index ⟨visit.pair.1, visit.pair.2, visit.thread, visit.thread.isSome⟩ := by
  have hget := varmanageRunGet_eq runs visit.node.xIo.usDevType visit.node.xIo.usDevNum
  cases hfind : findSlot VarmanageRun.pair visit.pair runs with
  | none =>
    left
    refine ⟨by rw [varmanageVisit, hget.trans hfind, Option.elim_none], Or.inr fun run hrun => ?_⟩
    simpa using findSlot_eq_none hfind run hrun
  | some index =>
    obtain ⟨run, hrun, hpair⟩ := (findSlot_eq_some hfind).1
    have hvisit : varmanageVisit runs visit = if ¬ run.use then
        runs.set index ⟨visit.pair.1, visit.pair.2, visit.thread, visit.thread.isSome⟩ else runs := by
      rw [varmanageVisit, hget.trans hfind, Option.elim_some, hrun, Option.elim_some]
      rfl
    cases huse : run.use with
    | false =>
      right
      exact ⟨index, run, rfl, hrun, huse, ⟨index, run, hget.trans hfind, hrun, huse⟩,
        hvisit.trans (if_pos (by simp [huse]))⟩
    | true =>
      left
      refine ⟨hvisit.trans (if_neg (by simp [huse])), Or.inl ⟨index, run, hrun, ?_⟩⟩
      exact hpair.resolve_left (by simp [huse])

/-- A round keeps the slots in use. -/
theorem varmanageVisit_keeps (runs : List VarmanageRun) (visit : CollectorVisit) :
    KeepsInUse runs (varmanageVisit runs visit) := by
  intro i run hrun huse
  rcases varmanageVisit_cases runs visit with ⟨hsame, -⟩ | ⟨index, old, -, hold, hfree, -, hset⟩
  · rw [hsame, hrun]
  · have hne : index ≠ i := by
      rintro rfl
      rw [hold, Option.some_inj] at hrun
      rw [← hrun, hfree] at huse
      cases huse
    rw [hset, List.getElem?_set_ne hne, hrun]

/-- A round keeps the invariant. -/
theorem varmanageVisit_ok {runs : List VarmanageRun} (h : CollectorsOk runs) (visit : CollectorVisit) :
    CollectorsOk (varmanageVisit runs visit) := by
  rcases varmanageVisit_cases runs visit with ⟨hsame, -⟩ | ⟨index, old, hfind, hold, hfree, -, hset⟩
  · rwa [hsame]
  rw [hset]
  have hpair : old.pair = none := VarmanageRun.pair_eq_none.mpr hfree
  cases hthread : visit.thread with
  | none =>
    -- the slot is written and stays free
    have hkeys : ∀ j k, SlotHas VarmanageRun.pair
        (runs.set index ⟨visit.pair.1, visit.pair.2, none, false⟩) j k ↔
          SlotHas VarmanageRun.pair runs j k := fun j k => slotHas_rewrite hold hpair.symm
    refine ⟨h.distinct.mono fun j k => (hkeys j k).mp, fun a b k hab hhas => ?_⟩
    obtain ⟨k', hfront⟩ := h.front a b k hab ((hkeys b k).mp hhas)
    exact ⟨k', (hkeys a k').mpr hfront⟩
  | some thread =>
    refine ⟨h.distinct.extend index (findSlot_free hfind h.front hold hpair) fun j k hhas => ?_,
      h.front.occupy hfind hold hpair rfl⟩
    exact (slotHas_occupy hold hpair rfl).mp hhas

/-- What is in use stays so over both of two runs. -/
theorem KeepsInUse.trans {runs runs' runs'' : List VarmanageRun} (h : KeepsInUse runs runs')
    (h' : KeepsInUse runs' runs'') : KeepsInUse runs runs'' :=
  fun i run hrun huse => h' i run (h i run hrun huse) huse

/-- An update keeps the slots in use. -/
theorem varmanageUpdate_keeps (runs : List VarmanageRun) (visits : List CollectorVisit) :
    KeepsInUse runs (varmanageUpdate runs visits) := by
  induction visits generalizing runs with
  | nil => exact fun _ _ hrun _ => hrun
  | cons visit visits ih => exact (varmanageVisit_keeps runs visit).trans (ih _)

/-- Updates keep the slots in use. -/
theorem varmanageUpdates_keeps (runs : List VarmanageRun) (updates : List (List CollectorVisit)) :
    KeepsInUse runs (varmanageUpdates runs updates) := by
  induction updates generalizing runs with
  | nil => exact fun _ _ hrun _ => hrun
  | cons visits updates ih => exact (varmanageUpdate_keeps runs visits).trans (ih _)

/-- An update keeps the invariant. -/
theorem varmanageUpdate_ok {runs : List VarmanageRun} (h : CollectorsOk runs)
    (visits : List CollectorVisit) : CollectorsOk (varmanageUpdate runs visits) := by
  induction visits generalizing runs with
  | nil => exact h
  | cons visit visits ih => exact ih (varmanageVisit_ok h visit)

/-- No slot is in use at the start. -/
theorem varmanageRunInit_free (i : ℕ) (pair : UInt16 × UInt16) :
    ¬ SlotHas VarmanageRun.pair varmanageRunInit i pair := by
  rintro ⟨run, hrun, hpair⟩
  rw [List.eq_of_mem_replicate (List.mem_of_getElem? hrun)] at hpair
  cases hpair

/-- The invariant holds after any updates. -/
theorem varmanageUpdates_ok (updates : List (List CollectorVisit)) :
    CollectorsOk (varmanageUpdates varmanageRunInit updates) := by
  have hrun : ∀ runs, CollectorsOk runs → CollectorsOk (varmanageUpdates runs updates) := by
    induction updates with
    | nil => exact fun _ h => h
    | cons visits updates ih => exact fun runs h => ih _ (varmanageUpdate_ok h visits)
  exact hrun varmanageRunInit ⟨fun i _ k hi => absurd hi (varmanageRunInit_free i k),
    fun _ j k _ hj => absurd hj (varmanageRunInit_free j k)⟩

/-- A slot keeps its pair. -/
theorem KeepsInUse.collected {runs runs' : List VarmanageRun} (h : KeepsInUse runs runs')
    (hlength : runs'.length = runs.length) {pair : UInt16 × UInt16} (hpair : Collected runs pair) :
    Collected runs' pair := by
  rcases hpair with ⟨i, run, hrun, hhas⟩ | hall
  · have huse : run.use = true := by
      cases huse : run.use with
      | true => rfl
      | false => rw [VarmanageRun.pair_eq_none.mpr huse] at hhas; cases hhas
    exact Or.inl ⟨i, run, h i run hrun huse, hhas⟩
  · refine Or.inr fun run hrun => ?_
    obtain ⟨i, hi, hget⟩ := List.getElem_of_mem hrun
    have hold := List.getElem?_eq_getElem (l := runs) (i := i) (hlength ▸ hi)
    have huse := hall _ (List.mem_of_getElem? hold)
    have hkept := h i _ hold huse
    rw [List.getElem?_eq_getElem hi, Option.some_inj, hget] at hkept
    rw [hkept, huse]

/-- There are as many slots after a round. -/
theorem varmanageVisit_length (runs : List VarmanageRun) (visit : CollectorVisit) :
    (varmanageVisit runs visit).length = runs.length := by
  rcases varmanageVisit_cases runs visit with ⟨hsame, -⟩ | ⟨index, old, -, -, -, -, hset⟩
  · rw [hsame]
  · rw [hset, List.length_set]

/-- There are as many slots after an update. -/
theorem varmanageUpdate_length (runs : List VarmanageRun) (visits : List CollectorVisit) :
    (varmanageUpdate runs visits).length = runs.length := by
  induction visits generalizing runs with
  | nil => rfl
  | cons visit visits ih => exact (ih _).trans (varmanageVisit_length runs visit)

/-- After a round with a thread the pair has a slot, or all slots are in use. -/
theorem varmanageVisit_collected {runs : List VarmanageRun} {visit : CollectorVisit}
    (hthread : visit.Creates runs → visit.thread.isSome = true) :
    Collected (varmanageVisit runs visit) visit.pair := by
  rcases varmanageVisit_cases runs visit with ⟨hsame, hcollected⟩ |
    ⟨index, old, -, hold, hfree, hcreates, hset⟩
  · rwa [hsame]
  · left
    rw [hset]
    refine ⟨index, _, List.getElem?_set_self (List.getElem?_eq_some_iff.mp hold).1, ?_⟩
    exact if_pos (hthread hcreates)

/-- After an update in which all threads are created each of its pairs has a slot, or all slots are in
use. -/
theorem varmanageUpdate_collected {runs : List VarmanageRun} {visits : List CollectorVisit}
    (hcreated : EachCreated runs visits) :
    ∀ visit ∈ visits, Collected (varmanageUpdate runs visits) visit.pair := by
  induction visits generalizing runs with
  | nil => exact fun _ hmem => absurd hmem List.not_mem_nil
  | cons visit visits ih =>
    intro visit' hmem
    rcases List.mem_cons.mp hmem with rfl | hmem
    · exact (varmanageUpdate_keeps _ visits).collected (varmanageUpdate_length _ visits)
        (varmanageVisit_collected hcreated.1)
    · exact ih hcreated.2 visit' hmem

/-- Whatever the updates before were, and however far an update has come: no pair has two slots in use,
the slots in use stay as they are for the rest of the update and in later ones, and when every creation
of a thread in it has succeeded each of the pairs met has a slot, or all slots are in use. -/
theorem varmanageUpdate_assigns (updates : List (List CollectorVisit)) (visits : List CollectorVisit) :
    SlotsDistinct VarmanageRun.pair (varmanageUpdate (varmanageUpdates varmanageRunInit updates) visits) ∧
      (∀ rest later, KeepsInUse (varmanageUpdate (varmanageUpdates varmanageRunInit updates) visits)
        (varmanageUpdates varmanageRunInit (updates ++ (visits ++ rest) :: later))) ∧
      (EachCreated (varmanageUpdates varmanageRunInit updates) visits → ∀ visit ∈ visits,
        Collected (varmanageUpdate (varmanageUpdates varmanageRunInit updates) visits) visit.pair) := by
  refine ⟨(varmanageUpdate_ok (varmanageUpdates_ok updates) visits).distinct, fun rest later => ?_,
    varmanageUpdate_collected⟩
  have hsplit : varmanageUpdates varmanageRunInit (updates ++ (visits ++ rest) :: later) =
      varmanageUpdates (varmanageUpdate
        (varmanageUpdate (varmanageUpdates varmanageRunInit updates) visits) rest) later := by
    simp only [varmanageUpdates, varmanageUpdate, List.foldl_append, List.foldl_cons]
  rw [hsplit]
  exact (varmanageUpdate_keeps _ rest).trans (varmanageUpdates_keeps _ later)

end DasEdge.VarManage
