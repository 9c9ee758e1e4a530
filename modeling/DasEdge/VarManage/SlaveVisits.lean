import DasEdge.VarManage.RefreshIsolation

/-!
# The addresses that a slave write visits

The loop of `bVarManage_RefreshExtDataWithModbusSlave` calls the refresh at the start of the write, if
a variable covers it, and from then on at the first register of each variable that it meets. With
disjoint output ranges each variable that the write reaches is visited once, in ascending order.
-/

namespace DasEdge.VarManage

/-- `MB_IN_USER_REG(EXT_DATA, usAddress, usNRegs)`: the writes that are accepted. -/
def SlaveWriteAccepted (usAddress usNRegs : ℕ) : Prop := 1024 ≤ usAddress ∧ usAddress + usNRegs ≤ 10241

/-- The addresses at which the loop calls `__SlaveRefreshExtDataWithRegs`. -/
def slaveVisits (vars : List ExtData) (usNRegs usAddress : ℕ) : List ℕ :=
  if usNRegs = 0 then []
  else
    match coveringNode vars usAddress with
    | some (data, _) =>
      let nregs := typeRegs data.xIo.btOutVarType - (usAddress - data.xIo.usAddr.toNat)
      if 0 < nregs then usAddress :: slaveVisits vars (usNRegs - nregs) (usAddress + nregs)
      else slaveVisits vars (usNRegs - 1) (usAddress + 1)
    | none => slaveVisits vars (usNRegs - 1) (usAddress + 1)
  termination_by usNRegs

/-- The node that is found covers the address. -/
theorem coveringNode_covers {vars : List ExtData} {usAddress : ℕ} {data : ExtData} {i : ℕ}
    (h : coveringNode vars usAddress = some (data, i)) :
    data.bEnable = true ∧ data.xIo.usAddr.toNat ≤ usAddress ∧
      usAddress < data.xIo.usAddr.toNat + typeRegs data.xIo.btOutVarType := by
  have hcovers : coversOut usAddress data = true :=
    List.find?_some (p := fun x : ExtData × ℕ => coversOut usAddress x.1) h
  simpa [coversOut, and_assoc] using hcovers

/-- Going on by the registers of a variable counts modulo the size of an address. -/
theorem addRegs_toNat {x : UInt16} {n : ℕ} (hn : n ≤ 4) :
    (x + n.toUInt16).toNat = (x.toNat + n) % 65536 := by
  have hsmall : n.toUInt16.toNat = n := by simpa using Nat.mod_eq_of_lt (by omega : n < 65536)
  rw [UInt16.toNat_add, hsmall]

/-- The loop is the refreshes at the visited addresses, one after the other. -/
theorem refreshExtDataWithModbusSlave_eq (env : RefreshEnv) (vars : List ExtData) (usNRegs : ℕ)
    (usAddress : UInt16)
    (s : RefreshState) (h : usNRegs = 0 ∨ usAddress.toNat + usNRegs ≤ 10241) :
    refreshExtDataWithModbusSlave env vars usNRegs usAddress s =
      (slaveVisits vars usNRegs usAddress.toNat).foldl (slaveRefreshExtDataWithRegs env vars) s := by
  induction usNRegs using Nat.strong_induction_on generalizing usAddress s with
  | _ usNRegs ih =>
    rw [refreshExtDataWithModbusSlave, slaveVisits]
    by_cases hzero : usNRegs = 0
    · rw [if_pos hzero, if_pos hzero]
      rfl
    rw [if_neg hzero, if_neg hzero]
    have hbound : usAddress.toNat + usNRegs ≤ 10241 := h.resolve_left hzero
    have hstep : ∀ n, n ≤ 4 → (usAddress + n.toUInt16).toNat = usAddress.toNat + n :=
      fun n hn => (addRegs_toNat hn).trans (Nat.mod_eq_of_lt (by omega))
    have hskip : ∀ t, refreshExtDataWithModbusSlave env vars (usNRegs - 1) (usAddress + 1) t =
        (slaveVisits vars (usNRegs - 1) (usAddress.toNat + 1)).foldl
        (slaveRefreshExtDataWithRegs env vars) t := by
      intro t
      have hone : (usAddress + 1).toNat = usAddress.toNat + 1 := hstep 1 (by decide)
      rw [ih (usNRegs - 1) (by omega) (usAddress + 1) t (by omega), hone]
    cases hnode : coveringNode vars usAddress.toNat with
    | none => exact hskip s
    | some x =>
      obtain ⟨data, i⟩ := x
      have hle := typeRegs_le data.xIo.btOutVarType
      simp only
      split
      · rw [List.foldl_cons]
        rw [ih _ (by omega) _ _ (by rw [hstep _ (by omega)]; omega), hstep _ (by omega)]
      · exact hskip s

/-- A variable that covers the address starts there. -/
def StartsClean (vars : List ExtData) (usAddress : ℕ) : Prop :=
  ∀ data i, coveringNode vars usAddress = some (data, i) → data.xIo.usAddr.toNat = usAddress

/-- A variable that covers an address and the one before covers no other's address. -/
theorem coveringNode_pred {vars : List ExtData} (hdisjoint : vars.Pairwise OutDisjoint) {usAddress : ℕ}
    {data : ExtData} {i : ℕ} (h : coveringNode vars (usAddress + 1) = some (data, i))
    (hstart : data.xIo.usAddr.toNat ≠ usAddress + 1) :
    coveringNode vars usAddress = some (data, i) := by
  obtain ⟨henabled, hle, hlt⟩ := coveringNode_covers h
  refine coveringNode_of_disjoint hdisjoint (coveringNode_getElem? h) ?_
  simp only [coversOut, henabled, Bool.true_and, Bool.and_eq_true, decide_eq_true_eq]
  omega

/-- Behind the variable that covers an address the next one starts clean. -/
theorem startsClean_end {vars : List ExtData} (hdisjoint : vars.Pairwise OutDisjoint) {usAddress : ℕ}
    {data : ExtData} {i : ℕ} (h : coveringNode vars usAddress = some (data, i)) :
    StartsClean vars (data.xIo.usAddr.toNat + typeRegs data.xIo.btOutVarType) := by
  intro other j hother
  by_contra hne
  obtain ⟨henabled, hle, hlt⟩ := coveringNode_covers h
  obtain ⟨last, hlast⟩ : ∃ last, data.xIo.usAddr.toNat + typeRegs data.xIo.btOutVarType = last + 1 :=
    ⟨data.xIo.usAddr.toNat + typeRegs data.xIo.btOutVarType - 1, by omega⟩
  rw [hlast] at hother hne
  have hpred := coveringNode_pred hdisjoint hother hne
  have hself : coveringNode vars last = some (data, i) := by
    refine coveringNode_of_disjoint hdisjoint (coveringNode_getElem? h) ?_
    simp only [coversOut, henabled, Bool.true_and, Bool.and_eq_true, decide_eq_true_eq]
    omega
  rw [hself] at hpred
  cases hpred
  have := (coveringNode_covers hother).2.2
  omega

/-- Behind an address that no variable covers the next one starts clean. -/
theorem startsClean_gap {vars : List ExtData} (hdisjoint : vars.Pairwise OutDisjoint) {usAddress : ℕ}
    (h : coveringNode vars usAddress = none) : StartsClean vars (usAddress + 1) := by
  intro other j hother
  by_contra hne
  rw [coveringNode_pred hdisjoint hother hne] at h
  cases h

/-- One round of the loop at an address that some variable covers. -/
theorem slaveVisits_covered {vars : List ExtData} {usNRegs usAddress : ℕ} {data : ExtData} {i : ℕ}
    (hregs : usNRegs ≠ 0) (h : coveringNode vars usAddress = some (data, i)) :
    slaveVisits vars usNRegs usAddress = usAddress :: slaveVisits vars
      (usAddress + usNRegs - (data.xIo.usAddr.toNat + typeRegs data.xIo.btOutVarType))
      (data.xIo.usAddr.toNat + typeRegs data.xIo.btOutVarType) := by
  obtain ⟨-, hle, hlt⟩ := coveringNode_covers h
  rw [slaveVisits, if_neg hregs, h]
  simp only
  rw [if_pos (by omega)]
  congr 2 <;> omega

/-- One round of the loop at an address that no variable covers. -/
theorem slaveVisits_gap {vars : List ExtData} {usNRegs usAddress : ℕ} (hregs : usNRegs ≠ 0)
    (h : coveringNode vars usAddress = none) :
    slaveVisits vars usNRegs usAddress = slaveVisits vars (usNRegs - 1) (usAddress + 1) := by
  rw [slaveVisits, if_neg hregs, h]

/-- A clean walk visits variables at their first registers, in ascending order without overlap, and
misses none that the range reaches. -/
theorem slaveVisits_clean {vars : List ExtData} (hdisjoint : vars.Pairwise OutDisjoint)
    (usNRegs usAddress : ℕ)
    (hclean : StartsClean vars usAddress) :
    (∀ a ∈ slaveVisits vars usNRegs usAddress, usAddress ≤ a ∧ a < usAddress + usNRegs ∧
      ∃ data i, coveringNode vars a = some (data, i) ∧ data.xIo.usAddr.toNat = a) ∧
    (slaveVisits vars usNRegs usAddress).Pairwise
    (fun a b => ∀ data i, coveringNode vars a = some (data, i) →
      a + typeRegs data.xIo.btOutVarType ≤ b) ∧
    ∀ r data i, usAddress ≤ r → r < usAddress + usNRegs → coveringNode vars r = some (data, i) →
      data.xIo.usAddr.toNat ∈ slaveVisits vars usNRegs usAddress := by
  induction usNRegs using Nat.strong_induction_on generalizing usAddress with
  | _ usNRegs ih =>
    by_cases hzero : usNRegs = 0
    · rw [slaveVisits, if_pos hzero]
      exact ⟨by simp, List.Pairwise.nil, fun r data i hle hlt => absurd hlt (by omega)⟩
    cases hnode : coveringNode vars usAddress with
    | none =>
      rw [slaveVisits_gap hzero hnode]
      obtain ⟨hvisits, hordered, hcomplete⟩ :=
        ih (usNRegs - 1) (by omega) (usAddress + 1) (startsClean_gap hdisjoint hnode)
      refine ⟨fun a ha => ?_, hordered, fun r data i hle hlt hr => ?_⟩
      · obtain ⟨hle, hlt, hfound⟩ := hvisits a ha
        exact ⟨by omega, by omega, hfound⟩
      · rcases Nat.eq_or_lt_of_le hle with rfl | hlt'
        · rw [hnode] at hr
          cases hr
        · exact hcomplete r data i hlt' (by omega) hr
    | some x =>
      obtain ⟨data, i⟩ := x
      have hstart := hclean data i hnode
      obtain ⟨-, -, hend⟩ := coveringNode_covers hnode
      rw [slaveVisits_covered hzero hnode]
      obtain ⟨hvisits, hordered, hcomplete⟩ := ih (usAddress + usNRegs - (data.xIo.usAddr.toNat +
        typeRegs data.xIo.btOutVarType)) (by omega) _ (startsClean_end hdisjoint hnode)
      refine ⟨?_, List.pairwise_cons.mpr ⟨?_, hordered⟩, ?_⟩
      · intro a ha
        rcases List.mem_cons.mp ha with rfl | ha
        · exact ⟨le_rfl, by omega, data, i, hnode, hstart⟩
        · obtain ⟨hle, hlt, hfound⟩ := hvisits a ha
          exact ⟨by omega, by omega, hfound⟩
      · intro b hb other j hother
        rw [hnode] at hother
        cases hother
        have := (hvisits b hb).1
        omega
      · intro r other j hle hlt hr
        by_cases hin : r < data.xIo.usAddr.toNat + typeRegs data.xIo.btOutVarType
        · have hsame : coveringNode vars r = some (data, i) := by
            refine coveringNode_of_disjoint hdisjoint (coveringNode_getElem? hnode) ?_
            simp only [coversOut, (coveringNode_covers hnode).1, Bool.true_and, Bool.and_eq_true,
              decide_eq_true_eq]
            omega
          rw [hsame] at hr
          cases hr
          rw [hstart]
          exact List.mem_cons_self
        · exact List.mem_cons_of_mem _ (hcomplete r other j (by omega) (by omega) hr)

/-- Every walk visits variables at the first of their registers that the range reaches, in ascending
order without overlap, and misses none. -/
theorem slaveVisits_spec {vars : List ExtData} (hdisjoint : vars.Pairwise OutDisjoint)
    (usNRegs usAddress : ℕ) :
    (∀ a ∈ slaveVisits vars usNRegs usAddress, a < usAddress + usNRegs ∧
      ∃ data i, coveringNode vars a = some (data, i) ∧ a = max data.xIo.usAddr.toNat usAddress) ∧
    (slaveVisits vars usNRegs usAddress).Pairwise
    (fun a b => ∀ data i, coveringNode vars a = some (data, i) →
      data.xIo.usAddr.toNat + typeRegs data.xIo.btOutVarType ≤ b) ∧
    ∀ r data i, usAddress ≤ r → r < usAddress + usNRegs → coveringNode vars r = some (data, i) →
      max data.xIo.usAddr.toNat usAddress ∈ slaveVisits vars usNRegs usAddress := by
  have hclean : ∀ n start, usAddress ≤ start → StartsClean vars start →
      (∀ a ∈ slaveVisits vars n start, start ≤ a ∧ a < start + n ∧
        ∃ data i, coveringNode vars a = some (data, i) ∧ a = max data.xIo.usAddr.toNat usAddress) ∧
      (slaveVisits vars n start).Pairwise (fun a b => ∀ data i, coveringNode vars a = some (data, i) →
        data.xIo.usAddr.toNat + typeRegs data.xIo.btOutVarType ≤ b) ∧
      ∀ r data i, start ≤ r → r < start + n → coveringNode vars r = some (data, i) →
        max data.xIo.usAddr.toNat usAddress ∈ slaveVisits vars n start := by
    intro n start hstart hclean
    obtain ⟨hvisits, hordered, hcomplete⟩ := slaveVisits_clean hdisjoint n start hclean
    refine ⟨fun a ha => ?_, hordered.imp_of_mem fun ha _ hend data i hnode => ?_,
      fun r data i hle hlt hr => ?_⟩
    · obtain ⟨hle, hlt, data, i, hnode, haddr⟩ := hvisits a ha
      exact ⟨hle, hlt, data, i, hnode, by omega⟩
    · have := hend data i hnode
      have := (coveringNode_covers hnode).2.1
      omega
    · have hmem := hcomplete r data i hle hlt hr
      rwa [max_eq_left (by have := (hvisits _ hmem).1; omega)]
  by_cases hzero : usNRegs = 0
  · rw [slaveVisits, if_pos hzero]
    exact ⟨by simp, List.Pairwise.nil, fun r data i hle hlt => absurd hlt (by omega)⟩
  cases hnode : coveringNode vars usAddress with
  | none =>
    obtain ⟨hvisits, hordered, hcomplete⟩ := hclean (usNRegs - 1) (usAddress + 1) (by omega)
      (startsClean_gap hdisjoint hnode)
    rw [slaveVisits_gap hzero hnode]
    refine ⟨fun a ha => ?_, hordered, ?_⟩
    · obtain ⟨hstart, hlt, hfound⟩ := hvisits a ha
      exact ⟨by omega, hfound⟩
    · intro r data i hle hlt hr
      rcases Nat.eq_or_lt_of_le hle with rfl | hlt'
      · rw [hnode] at hr
        cases hr
      · exact hcomplete r data i hlt' (by omega) hr
  | some x =>
    obtain ⟨data, i⟩ := x
    obtain ⟨henabled, hle, hend⟩ := coveringNode_covers hnode
    obtain ⟨hvisits, hordered, hcomplete⟩ := hclean (usAddress + usNRegs - (data.xIo.usAddr.toNat +
      typeRegs data.xIo.btOutVarType)) _ (by omega) (startsClean_end hdisjoint hnode)
    rw [slaveVisits_covered hzero hnode]
    refine ⟨fun a ha => ?_, List.pairwise_cons.mpr ⟨fun b hb other j hother => ?_, hordered⟩, ?_⟩
    · rcases List.mem_cons.mp ha with rfl | ha
      · exact ⟨by omega, data, i, hnode, by omega⟩
      · obtain ⟨hstart, hlt, hfound⟩ := hvisits a ha
        exact ⟨by omega, hfound⟩
    · rw [hnode] at hother
      cases hother
      exact (hvisits b hb).1
    · intro r other j hler hlt hr
      by_cases hin : r < data.xIo.usAddr.toNat + typeRegs data.xIo.btOutVarType
      · have hsame : coveringNode vars r = some (data, i) := by
          refine coveringNode_of_disjoint hdisjoint (coveringNode_getElem? hnode) ?_
          simp only [coversOut, henabled, Bool.true_and, Bool.and_eq_true, decide_eq_true_eq]
          omega
        rw [hsame] at hr
        cases hr
        rw [max_eq_right hle]
        exact List.mem_cons_self
      · exact List.mem_cons_of_mem _ (hcomplete r other j (by omega) (by omega) hr)

end DasEdge.VarManage
