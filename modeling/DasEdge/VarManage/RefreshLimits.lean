import DasEdge.VarManage.MasterDelivery

/-!
# Limits of stored values

The limits of a variable are only looked at when its expression has changed the value, and it is the
value as it was read that is compared, not the one that will be stored. So a refresh keeps a value
within its limits exactly when the value that it stores happens to be within them, or when the raw one
is not and the old value is put back.
-/

namespace DasEdge.VarManage

/-- Comparison of numbers, by the two comparisons of the code. -/
def DoubleOps.le (ops : DoubleOps) (x y : UInt64) : Bool := ops.lt x y || !ops.ne x y

/-- A value, read with the output type of its variable, respects the limits that the variable uses. -/
def WithinLimits (ops : DoubleOps) (data : ExtData) (v : VarValue) : Prop :=
  ∀ value, getExtValue ops data.xIo.btOutVarType v = some value →
    (data.xIo.bUseMax = true → ops.le value (ops.ofFloat data.xIo.fMax) = true) ∧
    (data.xIo.bUseMin = true → ops.le (ops.ofFloat data.xIo.fMin) value = true)

/-- What a refresh meets that keeps the limits. If the expression leaves the value alone, the scaled
value is within them. If it changes the value, its result is within them or the value as it was read
is not, by the comparison of the code. -/
def MeetsLimits (env : RefreshEnv) (data : ExtData) (s : RefreshState) (i : ℕ)
    (raw converted : VarValue) : Prop :=
  let scaled := tryRefreshAiValue env.ops data converted
  let result := doexpValue env data (Function.update s.values i scaled) scaled
  (result.1 = false → WithinLimits env.ops data scaled) ∧
    (result.1 = true → checkExtValue env.ops data raw = true → WithinLimits env.ops data result.2)

/-- The condition at the refresh of a variable from a Modbus response. -/
def MasterMeetsLimits (env : RefreshEnv) (s : RefreshState) (usAddress : ℕ) (data : ExtData)
    (i : ℕ) : Prop :=
  let raw := vBigEdianExtData data.xIo.btInVarType data.xIo.btInVarRuleType (readUnion s.regs usAddress)
    (env.stack s usAddress)
  MeetsLimits env data s i raw (doSetOutValue env.ops data data.xIo.btInVarType raw)

/-- The condition at the refresh of a variable from written registers. -/
def SlaveMeetsLimits (env : RefreshEnv) (s : RefreshState) (usAddress : ℕ) (data : ExtData)
    (i : ℕ) : Prop :=
  let raw :=
    vBigEdianExtData data.xIo.btOutVarType data.xIo.btOutVarRuleType (readUnion s.regs usAddress)
    (env.stack s usAddress)
  MeetsLimits env data s i raw raw

/-- The stored value of a refresh is within the limits exactly under the condition. -/
theorem refreshedValue_within_iff {env : RefreshEnv} {data : ExtData} {s : RefreshState} {i : ℕ}
    (raw converted : VarValue) (h : WithinLimits env.ops data (s.values i)) :
    WithinLimits env.ops data (refreshedValue env data s i raw converted) ↔
      MeetsLimits env data s i raw converted := by
  unfold refreshedValue MeetsLimits
  simp only
  obtain ⟨scaled, hscaled⟩ : ∃ scaled, scaled = tryRefreshAiValue env.ops data converted := ⟨_, rfl⟩
  rw [← hscaled]
  rcases doexpValue_cases env data (Function.update s.values i scaled) scaled
    with hsame | ⟨-, -, text, x, -, hset⟩
  · rw [hsame]
    simp
  · rw [hset]
    cases hcheck : checkExtValue env.ops data raw with
    | false => simpa using h
    | true => simp

/-- The refresh of the variable that is found stores its refreshed value. -/
theorem refreshNode_values (env : RefreshEnv) (type : EVarType) (rule : UInt8)
    (convert : VarValue → VarValue)
    (usAddress : ℕ) (s : RefreshState) (data : ExtData) (i : ℕ) :
    (refreshNode env type rule convert usAddress s data i).values i =
      refreshedValue env data s i
        (vBigEdianExtData type rule (readUnion s.regs usAddress) (env.stack s usAddress))
        (convert (vBigEdianExtData type rule (readUnion s.regs usAddress) (env.stack s usAddress))) :=
  Function.update_self _ _ _

/-- The slave refresh changes no value but that of the node that covers the address. -/
theorem slaveRefresh_values {env : RefreshEnv} {vars : List ExtData} {s : RefreshState}
    {usAddress i : ℕ}
    (h : ∀ data, coveringNode vars usAddress ≠ some (data, i)) :
    (slaveRefreshExtDataWithRegs env vars s usAddress).values i = s.values i := by
  rw [slaveRefreshExtDataWithRegs]
  cases hnode : coveringNode vars usAddress with
  | none => rfl
  | some x =>
    obtain ⟨data, j⟩ := x
    have hne : i ≠ j := by
      rintro rfl
      exact h data hnode
    exact Function.update_of_ne hne _ _

/-- Arithmetic on `double`s that are not negative. -/
def positiveOps : DoubleOps where
  ofInt n :=
    let n := n.toNat
    if n = 0 then 0 else ((1023 + n.log2) * 2 ^ 52 + (n - 2 ^ n.log2) * 2 ^ (52 - n.log2)).toUInt64
  ofFloat x :=
    if x = 0 then 0 else ((x.toNat / 2 ^ 23 + 896) * 2 ^ 52 + x.toNat % 2 ^ 23 * 2 ^ 29).toUInt64
  toFloat x :=
    if x = 0 then 0 else ((x.toNat / 2 ^ 52 - 896) * 2 ^ 23 + x.toNat % 2 ^ 52 / 2 ^ 29).toUInt32
  toInt _ x := ((2 ^ 52 + x.toNat % 2 ^ 52) * 2 ^ (x.toNat / 2 ^ 52) / 2 ^ (1023 + 52) : ℕ)
  isZero x := x = 0
  ne x y := x ≠ y
  lt x y := x < y
  adcResult _ x := x

/-- A 16-bit variable with limits 0 and 10. -/
def limitedVariable : ExtData where
  xIo := { usAddr := 1024, bUseMax := true, bUseMin := true, fMax := 0x41200000, fMin := 0 }

/-- The variable holds 5, and its register holds another number. -/
def limitedState (number : UInt8) : RefreshState :=
  ⟨fun _ k => if k.val = 0 then 5 else 0, fun b => if b = 2049 then number else 0⟩

/-- A value of which a number can be read is within its limits when the comparisons say so. -/
theorem withinLimits_of_value {ops : DoubleOps} {data : ExtData} {v : VarValue} {value : UInt64}
    (hvalue : getExtValue ops data.xIo.btOutVarType v = some value)
    (hmax : data.xIo.bUseMax = true → ops.le value (ops.ofFloat data.xIo.fMax) = true)
    (hmin : data.xIo.bUseMin = true → ops.le (ops.ofFloat data.xIo.fMin) value = true) :
    WithinLimits ops data v := by
  intro other hother
  rw [hvalue] at hother
  cases hother
  exact ⟨hmax, hmin⟩

/-- The stored 5 is within the limits. -/
theorem limitedState_within (number : UInt8) :
    WithinLimits positiveOps limitedVariable ((limitedState number).values 0) := by
  have hnumber : leNat ((limitedState number).values 0) 2 = 5 := by
    change leNat (fun k => if k = 0 then 5 else 0) 2 = 5
    decide
  refine @withinLimits_of_value positiveOps limitedVariable _ (positiveOps.ofInt 5) ?_ (by decide)
    (by decide)
  change some (positiveOps.ofInt (leNat ((limitedState number).values 0) 2)) = _
  rw [hnumber]
  rfl

end DasEdge.VarManage
