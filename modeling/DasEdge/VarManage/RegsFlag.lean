import DasEdge.VarManage.RegBounds

/-!
# Which registers a request may touch

The flags that `__RefreshRegsFlag` sets are those of the output registers of the enabled variables,
as far as they lie in the area of the extended data. A request passes the check when all its
registers have their flag. The check counts the address on in 16 bits, and it stops at the end of
the area, long before the address comes back to zero.
-/

namespace DasEdge.VarManage

/-- The inner loop of `__RefreshRegsFlag` over the output registers of a variable. -/
def setRegsFlag (flags : ℤ → Bool) (data : ExtData) : ℤ → Bool :=
  (List.range (typeRegs data.xIo.btOutVarType)).foldl (fun flags i =>
    let addr := data.xIo.usAddr.toNat + i
    if extDataRegCheck addr then Function.update flags (flagAt addr).index true else flags) flags

/-- `__RefreshRegsFlag` -/
def refreshRegsFlag (vars : List ExtData) : ℤ → Bool :=
  vars.foldl (fun flags data => if data.bEnable then setRegsFlag flags data else flags) fun _ => false

/-- A register is one of the output registers of a variable. -/
def ExtData.OutputReg (data : ExtData) (reg : ℕ) : Prop :=
  data.xIo.usAddr.toNat ≤ reg ∧ reg < data.xIo.usAddr.toNat + typeRegs data.xIo.btOutVarType

/-- A loop that only sets flags has set those that one of its rounds sets. -/
theorem foldl_flag_iff {α : Type*} {step : (ℤ → Bool) → α → ℤ → Bool} {sets : α → ℤ → Prop}
    (hstep : ∀ flags x i, step flags x i = true ↔ flags i = true ∨ sets x i) (xs : List α)
    (flags : ℤ → Bool) (i : ℤ) :
    xs.foldl step flags i = true ↔ flags i = true ∨ ∃ x ∈ xs, sets x i := by
  induction xs generalizing flags with
  | nil => simp
  | cons x xs ih => rw [List.foldl_cons, ih, hstep, List.exists_mem_cons_iff, or_assoc]

/-- The loop over a variable sets the flags of its output registers inside the area. -/
theorem setRegsFlag_iff (flags : ℤ → Bool) (data : ExtData) (index : ℤ) :
    setRegsFlag flags data index = true ↔
      flags index = true ∨ ∃ reg, data.OutputReg reg ∧ extDataRegCheck reg = true ∧
        (flagAt reg).index = index := by
  have hround : ∀ (flags : ℤ → Bool) (i : ℕ) (index : ℤ),
      (if extDataRegCheck (data.xIo.usAddr.toNat + i) then
          Function.update flags (flagAt (data.xIo.usAddr.toNat + i)).index true
          else flags) index = true ↔
        flags index = true ∨
          (extDataRegCheck (data.xIo.usAddr.toNat + i) = true ∧
          (flagAt (data.xIo.usAddr.toNat + i)).index = index) := by
    intro flags i index
    split
    · rename_i hcheck
      by_cases hindex : index = (flagAt (data.xIo.usAddr.toNat + i)).index
      · subst hindex
        simp [hcheck]
      · rw [Function.update_of_ne hindex]
        simp [Ne.symm hindex]
    · rename_i hcheck
      simp [hcheck]
  rw [setRegsFlag, foldl_flag_iff hround]
  refine or_congr_right ?_
  constructor
  · rintro ⟨i, hi, hcheck, hindex⟩
    exact ⟨_, ⟨Nat.le_add_right _ _, Nat.add_lt_add_left (List.mem_range.mp hi) _⟩, hcheck, hindex⟩
  · rintro ⟨reg, ⟨hfrom, hto⟩, hcheck, hindex⟩
    obtain ⟨i, rfl⟩ := Nat.exists_eq_add_of_le hfrom
    exact ⟨i, List.mem_range.mpr (Nat.lt_of_add_lt_add_left hto), hcheck, hindex⟩

/-- The flags that are set are those of the output registers of the enabled variables inside the
area. -/
theorem refreshRegsFlag_iff (vars : List ExtData) (reg : ℕ) :
    refreshRegsFlag vars (flagAt reg).index = true ↔
      extDataRegCheck reg = true ∧ ∃ data ∈ vars, data.bEnable = true ∧ data.OutputReg reg := by
  have hnode : ∀ (flags : ℤ → Bool) (data : ExtData) (index : ℤ),
      (if data.bEnable then setRegsFlag flags data else flags) index = true ↔
        flags index = true ∨ (data.bEnable = true ∧
          ∃ reg, data.OutputReg reg ∧ extDataRegCheck reg = true ∧ (flagAt reg).index = index) := by
    intro flags data index
    split
    · rename_i henable
      rw [setRegsFlag_iff, and_iff_right henable]
    · rename_i henable
      simp [henable]
  have hinj : ∀ other, (flagAt other).index = (flagAt reg).index ↔ other = reg := by
    intro other
    simp only [flagAt]
    omega
  rw [refreshRegsFlag, foldl_flag_iff hnode]
  constructor
  · rintro (hset | ⟨data, hdata, henable, other, hreg, hcheck, hindex⟩)
    · cases hset
    · obtain rfl := (hinj other).mp hindex
      exact ⟨hcheck, data, hdata, henable, hreg⟩
  · rintro ⟨hcheck, data, hdata, henable, hreg⟩
    exact Or.inr ⟨data, hdata, henable, reg, hreg, hcheck, rfl⟩

/-- The check passes when every register of the request is inside the area and has its flag. -/
theorem checkContAddr_iff (flags : ℤ → Bool) (usNRegs : ℕ) (usAddr : UInt16) :
    (checkContAddr flags usNRegs usAddr).1 = true ↔
      ∀ reg, usAddr.toNat ≤ reg → reg < usAddr.toNat + usNRegs →
        extDataRegCheck reg = true ∧ flags (flagAt reg).index = true := by
  induction usNRegs generalizing usAddr with
  | zero =>
    refine iff_of_true rfl fun reg hfrom hto => ?_
    omega
  | succ usNRegs ih =>
    have hfirst : ∀ {p : ℕ → Prop},
      (∀ reg, usAddr.toNat ≤ reg → reg < usAddr.toNat + (usNRegs + 1) → p reg) ↔
        p usAddr.toNat ∧ ∀ reg, usAddr.toNat + 1 ≤ reg → reg < usAddr.toNat + 1 + usNRegs → p reg := by
      intro p
      constructor
      · intro h
        exact ⟨h _ (Nat.le_refl _) (by omega), fun reg hfrom hto => h reg (by omega) (by omega)⟩
      · rintro ⟨hhead, htail⟩ reg hfrom hto
        rcases Nat.eq_or_lt_of_le hfrom with rfl | hlt
        · exact hhead
        · exact htail reg hlt (by omega)
    rw [hfirst, checkContAddr]
    split
    · rename_i hcheck
      -- inside the area the next address is one higher
      have hend : usAddr.toNat ≤ userRegExtDataEnd := by
        rw [extDataRegCheck, Bool.and_eq_true, decide_eq_true_eq, decide_eq_true_eq] at hcheck
        exact hcheck.2
      have hnext : (usAddr + 1).toNat = usAddr.toNat + 1 := by
        have hone : (1 : UInt16).toNat = 1 := rfl
        rw [UInt16.toNat_add, hone]
        simp only [userRegExtDataEnd] at hend
        omega
      dsimp only
      split
      · rename_i hflag
        rw [ih, hnext]
        exact (and_iff_right ⟨hcheck, hflag⟩).symm
      · rename_i hflag
        exact iff_of_false Bool.false_ne_true fun h => hflag h.1.2
    · rename_i hcheck
      exact iff_of_false Bool.false_ne_true fun h => hcheck h.1.1

/-- A request passes exactly when all its registers lie inside the area and each is an output
register of an enabled variable. -/
theorem checkContAddr_covered_iff (vars : List ExtData) (usAddr usNRegs : UInt16) :
    (checkContAddr (refreshRegsFlag vars) usNRegs.toNat usAddr).1 = true ↔
      ∀ reg, usAddr.toNat ≤ reg → reg < usAddr.toNat + usNRegs.toNat →
        (userRegExtDataStart ≤ reg ∧ reg ≤ userRegExtDataEnd) ∧
          ∃ data ∈ vars, data.bEnable = true ∧ data.OutputReg reg := by
  have harea : ∀ reg, extDataRegCheck reg = true ↔ userRegExtDataStart ≤ reg ∧
      reg ≤ userRegExtDataEnd := by
    intro reg
    rw [extDataRegCheck, Bool.and_eq_true, decide_eq_true_eq, decide_eq_true_eq]
  rw [checkContAddr_iff]
  refine forall_congr' fun reg => imp_congr_right fun _ => imp_congr_right fun _ => ?_
  rw [refreshRegsFlag_iff, ← harea]
  constructor
  · rintro ⟨hcheck, -, hcovered⟩
    exact ⟨hcheck, hcovered⟩
  · rintro ⟨hcheck, hcovered⟩
    exact ⟨hcheck, hcheck, hcovered⟩

end DasEdge.VarManage
