import DasEdge.VarManage.Refresh

/-!
# The bytes that a refresh touches

Each step between reading a value and writing it back leaves the bytes alone that do not belong to
the member it is about, and encoding undoes decoding. So a refresh changes registers outside the
output range only through the eight bytes that the types without a byte order copy.
-/

namespace DasEdge.VarManage

/-- The types for which `vBigEdianExtData` copies the whole union. -/
def copiesUnion : EVarType → Bool
  | .bit | .int8 | .uint8 | .array | .error => true
  | _ => false

/-- A variable has an expression or names a rule. -/
def hasExpression (data : ExtData) : Bool :=
  match data.xIo.exp with
  | .exp (some text) => text ≠ ""
  | .rule (some name) _ _ => name ≠ ""
  | _ => false

/-- A variable has a limit that its expression's result is checked against. -/
def hasLimit (data : ExtData) : Bool := data.xIo.bUseMax || data.xIo.bUseMin

/-- A type with a byte order covers all its registers. -/
theorem edianSize_eq {type : EVarType} (h : copiesUnion type = false) :
    edianSize type = 2 * typeRegs type ∧ edianSize type = typedSize type ∧ 0 < typeRegs type := by
  cases type <;> first | decide | exact absurd h (by decide)

/-- A type that copies the union has at most one register and one typed byte. -/
theorem copiesUnion_size {type : EVarType} (h : copiesUnion type = true) :
    edianSize type = 8 ∧ typeRegs type ≤ 1 ∧ typedSize type ≤ 1 := by
  cases type <;> first | decide | exact absurd h (by decide)

/-- A copied union keeps its bytes in place. -/
theorem edianSource_copy {type : EVarType} (h : copiesUnion type = true) (rule : UInt8) (i : ℕ) :
    edianSource type rule i = i := by
  cases type <;> first | rfl | exact absurd h (by decide)

/-- The typed bytes are among those that are decoded. -/
theorem typedSize_le_edianSize (type : EVarType) : typedSize type ≤ edianSize type ∧
    edianSize type ≤ 8 := by
  cases type <;> decide

/-- The byte order of a type permutes the bytes of its member and is its own inverse. -/
theorem edianSource_spec (type : EVarType) (rule : UInt8) (i : ℕ) (hi : i < edianSize type) :
    edianSource type rule i < edianSize type ∧ edianSource type rule (edianSource type rule i) = i := by
  cases hcopy : copiesUnion type with
  | true =>
    rw [edianSource_copy hcopy, edianSource_copy hcopy]
    exact ⟨hi, rfl⟩
  | false =>
    cases type <;> first
      | exact absurd hcopy (by decide)
      | (simp only [edianSource, edianSize] at hi ⊢; split_ifs <;> omega)
      | (simp only [edianSource, edianSize] at hi ⊢; omega)

/-- The decoded bytes. -/
theorem vBigEdianExtData_lt {type : EVarType} {rule : UInt8} {input out : VarValue} {i : Fin 8}
    (hi : i.val < edianSize type) :
    vBigEdianExtData type rule input out i = input (Fin.ofNat 8 (edianSource type rule i)) := if_pos hi

/-- The bytes that decoding leaves alone. -/
theorem vBigEdianExtData_ge {type : EVarType} {rule : UInt8} {input out : VarValue} {i : Fin 8}
    (hi : edianSize type ≤ i.val) : vBigEdianExtData type rule input out i = out i := if_neg (by omega)

/-- On the bytes of a type encoding and decoding undo each other. -/
theorem vBigEdianExtData_inverse {type : EVarType} {rule : UInt8} {v w out : VarValue} {i : Fin 8}
    (hi : i.val < edianSize type) :
    vBigEdianExtData type rule (vBigEdianExtData type rule v w) out i = v i := by
  obtain ⟨hlt, hinv⟩ := edianSource_spec type rule i hi
  have hsize := (typedSize_le_edianSize type).2
  have hval : (Fin.ofNat 8 (edianSource type rule i)).val = edianSource type rule i :=
    Nat.mod_eq_of_lt (by omega)
  rw [vBigEdianExtData_lt hi, vBigEdianExtData_lt (by rw [hval]; exact hlt), hval, hinv]
  congr 1
  exact Fin.ext (Nat.mod_eq_of_lt i.isLt)

/-- Encoding undoes decoding. -/
theorem vBigEdianExtData_twice (type : EVarType) (rule : UInt8) (v w : VarValue) :
    vBigEdianExtData type rule (vBigEdianExtData type rule v w) v = v := by
  funext i
  by_cases hi : i.val < edianSize type
  · exact vBigEdianExtData_inverse hi
  · exact vBigEdianExtData_ge (by omega)

/-- A byte inside the written union. -/
theorem writeUnion_inside {regs : ℕ → UInt8} {usAddress : ℕ} {v : VarValue} (k : ℕ) (hk : k < 8) :
    writeUnion regs usAddress v (2 * usAddress + k) = v ⟨k, hk⟩ := by
  rw [writeUnion, if_pos (by omega), Nat.add_sub_cancel_left]
  congr 1
  exact Fin.ext (Nat.mod_eq_of_lt hk)

/-- A byte outside the written union. -/
theorem writeUnion_outside {regs : ℕ → UInt8} {usAddress : ℕ} {v : VarValue} {b : ℕ}
    (hb : b < 2 * usAddress ∨ 2 * usAddress + 8 ≤ b) : writeUnion regs usAddress v b = regs b :=
  if_neg (by omega)

/-- The union that was written is read back. -/
theorem readUnion_writeUnion (regs : ℕ → UInt8) (usAddress : ℕ) (v : VarValue) :
    readUnion (writeUnion regs usAddress v) usAddress = v := by
  funext k
  exact writeUnion_inside k.val k.isLt

/-- Setting the member of a type leaves the other bytes alone. -/
theorem setExtValue_ge {ops : DoubleOps} {type : EVarType} {x : UInt64} {v : VarValue} {i : Fin 8}
    (hi : typedSize type ≤ i.val) : setExtValue ops type x v i = v i := if_neg (by omega)

/-- Converting to the output type leaves the bytes outside its member alone. -/
theorem doSetOutValue_ge {ops : DoubleOps} {data : ExtData} {type : EVarType} {v : VarValue} {i : Fin 8}
    (hi : typedSize data.xIo.btOutVarType ≤ i.val) : doSetOutValue ops data type v i = v i := by
  rw [doSetOutValue]
  split
  · rfl
  · cases getExtValue ops type v with
    | none => rfl
    | some value => exact setExtValue_ge hi

/-- Scaling an analog input leaves the bytes outside its member alone. -/
theorem tryRefreshAiValue_ge {ops : DoubleOps} {data : ExtData} {v : VarValue} {i : Fin 8}
    (hi : typedSize data.xIo.btOutVarType ≤ i.val) : tryRefreshAiValue ops data v i = v i := by
  rw [tryRefreshAiValue]
  split
  · cases getExtValue ops data.xIo.btOutVarType v with
    | none => rfl
    | some value => exact setExtValue_ge hi
  · rfl

/-- A value that is not an analog input is not scaled. -/
theorem tryRefreshAiValue_eq {ops : DoubleOps} {data : ExtData} (h : data.eAttr ≠ .ai) (v : VarValue) :
    tryRefreshAiValue ops data v = v := if_neg h

/-- A type without a member has no number to read. -/
theorem getExtValue_none {ops : DoubleOps} {type : EVarType} (h : typedSize type = 0) (v : VarValue) :
    getExtValue ops type v = none := by
  cases type <;> first | rfl | exact absurd h (by decide)

/-- A type with a member always has a number to read. -/
theorem getExtValue_some (ops : DoubleOps) {type : EVarType} (h : typedSize type ≠ 0) (v : VarValue) :
    ∃ value, getExtValue ops type v = some value := by
  cases type <;> first | exact ⟨_, rfl⟩ | exact absurd rfl h

/-- What an expression does to a value: nothing, or one assignment to the member of the output type. -/
theorem doexpValue_cases (env : RefreshEnv) (data : ExtData) (values : ℕ → VarValue) (v : VarValue) :
    doexpValue env data values v = (false, v) ∨
      hasExpression data = true ∧ typedSize data.xIo.btOutVarType ≠ 0 ∧
        ∃ text x, env.evaluate values text data.szName = some x ∧
          doexpValue env data values v = (true, setExtValue env.ops data.xIo.btOutVarType x v) := by
  have htext : ∀ text, doexpText env data values v text = (false, v) ∨
      typedSize data.xIo.btOutVarType ≠ 0 ∧
        ∃ source x, env.evaluate values source data.szName = some x ∧
          doexpText env data values v text = (true, setExtValue env.ops data.xIo.btOutVarType x v) := by
    intro text
    rw [doexpText]
    by_cases hsize : typedSize data.xIo.btOutVarType = 0
    · rw [getExtValue_none hsize]
      exact .inl rfl
    · obtain ⟨value, hvalue⟩ := getExtValue_some env.ops hsize v
      rw [hvalue]
      simp only
      cases hx : env.evaluate values text data.szName with
      | none => exact .inl rfl
      | some x =>
        simp only
        split
        · exact .inr ⟨hsize, text, x, hx, rfl⟩
        · exact .inl rfl
  rw [doexpValue, hasExpression]
  cases data.xIo.exp with
  | exp szExp =>
    cases szExp with
    | none => exact .inl rfl
    | some text =>
      by_cases htextEmpty : text = ""
      · exact .inl (if_pos htextEmpty)
      · simp only [ne_eq, htextEmpty, not_false_eq_true, decide_true, true_and]
        exact htext text
  | rule name pIn pOut =>
    cases name with
    | none => exact .inl rfl
    | some name =>
      by_cases hnameEmpty : name = ""
      · exact .inl (if_pos hnameEmpty)
      · simp only [ne_eq, hnameEmpty, not_false_eq_true, decide_true, true_and]
        cases env.ruleGet name with
        | none => exact .inl rfl
        | some type => exact htext (ruleText env name pIn pOut type)

/-- A check without limits accepts every value. -/
theorem checkExtValue_noLimit {ops : DoubleOps} {data : ExtData} (h : hasLimit data = false)
    (v : VarValue) :
    checkExtValue ops data v = true := by
  simp only [hasLimit, Bool.or_eq_false_iff] at h
  rw [checkExtValue]
  split
  · rfl
  · simp [h.1, h.2]

/-- With an expression and a member to assign to, some text is evaluated. -/
theorem doexpValue_text (env : RefreshEnv) {data : ExtData} (hexp : hasExpression data = true)
    (hrule : ∀ name, env.ruleGet name ≠ none) (values : ℕ → VarValue) (v : VarValue) :
    ∃ text, doexpValue env data values v = doexpText env data values v text := by
  rw [hasExpression] at hexp
  rw [doexpValue]
  split at hexp
  · next text hexpr =>
    rw [hexpr]
    simp only [if_neg (by simpa using hexp : ¬ text = "")]
    exact ⟨text, rfl⟩
  · next name pIn pOut hexpr =>
    rw [hexpr]
    simp only [if_neg (by simpa using hexp : ¬ name = "")]
    cases htype : env.ruleGet name with
    | none => exact absurd htype (hrule name)
    | some type => exact ⟨_, rfl⟩
  · exact absurd hexp (by decide)

/-- A check with a limit rejects every number when every comparison says yes. -/
theorem checkExtValue_limit (ops : DoubleOps) {data : ExtData} (h : hasLimit data = true)
    (hsize : typedSize data.xIo.btOutVarType ≠ 0) (hlt : ∀ x y, ops.lt x y = true) (v : VarValue) :
    checkExtValue ops data v = false := by
  obtain ⟨value, hvalue⟩ := getExtValue_some ops hsize v
  simp only [hasLimit, Bool.or_eq_true] at h
  rw [checkExtValue, hvalue]
  rcases h with hmax | hmin
  · simp [hmax, hlt]
  · simp [hmin, hlt]

/-- A variable without expression that is no analog input is stored as converted. -/
theorem refreshedValue_plain {env : RefreshEnv} {data : ExtData} {s : RefreshState} {i : ℕ}
    {raw converted : VarValue}
    (hexp : hasExpression data = false) (hattr : data.eAttr ≠ .ai) :
    refreshedValue env data s i raw converted = converted := by
  rw [refreshedValue, tryRefreshAiValue_eq hattr]
  rcases doexpValue_cases env data (Function.update s.values i converted) converted
    with hsame | ⟨hexp', -⟩
  · rw [hsame]
    rfl
  · rw [hexp] at hexp'
    cases hexp'

/-- Outside the member of the output type a refresh stores what it read, unless it puts the old value
back because an expression's result exceeds a limit. -/
theorem refreshedValue_ge {env : RefreshEnv} {data : ExtData} {s : RefreshState} {i : ℕ}
    {raw converted : VarValue}
    {k : Fin 8} (hk : typedSize data.xIo.btOutVarType ≤ k.val)
    (hrestore : ¬ (hasExpression data = true ∧ hasLimit data = true ∧
      typedSize data.xIo.btOutVarType ≠ 0)) :
    refreshedValue env data s i raw converted k = converted k := by
  rw [refreshedValue]
  rcases doexpValue_cases env data
    (Function.update s.values i (tryRefreshAiValue env.ops data converted))
    (tryRefreshAiValue env.ops data converted) with hsame | ⟨hexp, hsize, -, x, -, hset⟩
  · rw [hsame]
    exact tryRefreshAiValue_ge hk
  · have hlimit : hasLimit data = false := by
      by_contra hlimit
      exact hrestore ⟨hexp, by simpa using hlimit, hsize⟩
    rw [hset, checkExtValue_noLimit hlimit]
    simp only [Bool.not_true, Bool.and_false, Bool.false_eq_true, if_false]
    rw [setExtValue_ge hk, tryRefreshAiValue_ge hk]

/-- An environment without expression results, whose locals start out as zero. -/
def quietEnv (ops : DoubleOps) : RefreshEnv := ⟨ops, fun _ _ _ => none, fun _ => none, "", fun _ _ => 0⟩

/-- Without expression results no expression changes a value. -/
theorem doexpValue_none (env : RefreshEnv)
    (h : ∀ values text name, env.evaluate values text name = none)
    (data : ExtData) (values : ℕ → VarValue) (v : VarValue) :
    doexpValue env data values v = (false, v) := by
  have htext : ∀ text, doexpText env data values v text = (false, v) := by
    intro text
    rw [doexpText]
    split
    · rfl
    · rw [h]
  rw [doexpValue]
  split
  · split
    · rfl
    · split
      · rfl
      · exact htext _
  · split
    · rfl
    · split
      · rfl
      · split
        · rfl
        · exact htext _

/-- Without expression results a refresh stores the scaled value. -/
theorem refreshedValue_quiet (ops : DoubleOps) (data : ExtData) (s : RefreshState) (i : ℕ)
    (raw converted : VarValue) :
    refreshedValue (quietEnv ops) data s i raw converted = tryRefreshAiValue ops data converted := by
  simp only [refreshedValue, doexpValue_none (quietEnv ops) (fun _ _ _ => rfl), Bool.false_and,
    Bool.false_eq_true, if_false]
  rfl

end DasEdge.VarManage
