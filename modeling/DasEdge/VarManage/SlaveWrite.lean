import DasEdge.VarManage.SlaveVisits

/-!
# What a slave write does to the variables it reaches

A visit decodes the value from the visited address, which is the variable's own address unless the
write starts inside the variable, and writes it back from there. So every variable ends up with the
value of its own registers exactly when no variable without expression is entered in its middle and no
visit that stores something else than it read spills over registers that have to stay.
-/

namespace DasEdge.VarManage

/-- The written registers reach the output range of a variable. -/
def Intersects (usAddress usNRegs : ℕ) (data : ExtData) : Prop :=
  ∃ r, usAddress ≤ r ∧ r < usAddress + usNRegs ∧ coversOut r data = true

/-- A variable holds the value that its own registers decode to. -/
def HoldsOwnRegs (s : RefreshState) (i : ℕ) (data : ExtData) : Prop :=
  ∀ k : Fin 8, k.val < gVarTypeSz data.xIo.btOutVarType → s.values i k =
    vBigEdianExtData data.xIo.btOutVarType data.xIo.btOutVarRuleType
    (readUnion s.regs data.xIo.usAddr.toNat) 0 k

/-- The registers of a variable are the same in both states. -/
def SameOwnRegs (data : ExtData) (s t : RefreshState) : Prop :=
  ∀ b, OwnsByte data b → t.regs b = s.regs b

/-- After a write each variable without expression that it reaches holds the value of its own registers,
which are as written unless an analog input is scaled, and every variable that it does not reach is
unchanged. -/
def SlaveWriteOk (vars : List ExtData) (usNRegs : ℕ) (usAddress : UInt16) : Prop :=
  ∀ env s i data, vars[i]? = some data →
    (Intersects usAddress.toNat usNRegs data → hasExpression data = false →
      HoldsOwnRegs (refreshExtDataWithModbusSlave env vars usNRegs usAddress s) i data ∧
        (data.eAttr ≠ .ai →
        SameOwnRegs data s (refreshExtDataWithModbusSlave env vars usNRegs usAddress s))) ∧
    (¬ Intersects usAddress.toNat usNRegs data →
      (refreshExtDataWithModbusSlave env vars usNRegs usAddress s).values i = s.values i ∧
        SameOwnRegs data s (refreshExtDataWithModbusSlave env vars usNRegs usAddress s))

/-- A variable whose registers have to stay as they are. -/
def KeepsRegs (usAddress usNRegs : ℕ) (data : ExtData) : Prop :=
  Intersects usAddress usNRegs data → hasExpression data = false ∧ data.eAttr ≠ .ai

/-- No register from `lo` up to `hi` has to stay as it is. -/
def NoneKept (vars : List ExtData) (usAddress usNRegs lo hi : ℕ) : Prop :=
  ∀ other ∈ vars, KeepsRegs usAddress usNRegs other → ∀ r, lo ≤ r → r < hi → coversOut r other = false

/-- A variable that is entered in its middle has an expression, and no register has to stay that the
value written back from there reaches; and none has to stay behind an 8-bit variable whose expression
can be given up for the old value. -/
def SlaveWriteSafe (vars : List ExtData) (usNRegs : ℕ) (usAddress : UInt16) : Prop :=
  ∀ data ∈ vars, Intersects usAddress.toNat usNRegs data →
    (data.xIo.usAddr < usAddress → hasExpression data = true ∧
      NoneKept vars usAddress.toNat usNRegs (data.xIo.usAddr.toNat + typeRegs data.xIo.btOutVarType)
        (usAddress.toNat + typeRegs data.xIo.btOutVarType)) ∧
    (usAddress ≤ data.xIo.usAddr → copiesUnion data.xIo.btOutVarType = true →
    hasExpression data = true →
      hasLimit data = true → typedSize data.xIo.btOutVarType ≠ 0 →
      NoneKept vars usAddress.toNat usNRegs (data.xIo.usAddr.toNat + 1) (data.xIo.usAddr.toNat + 4))

/-- The bytes that a refresh of a variable at an address may change. -/
def RefreshTouches (data : ExtData) (usAddress b : ℕ) : Prop :=
  2 * usAddress ≤ b ∧ (hasExpression data = true ∨ data.eAttr = .ai) ∧
    (b < 2 * (usAddress + typeRegs data.xIo.btOutVarType) ∨
      (copiesUnion data.xIo.btOutVarType = true ∧ hasExpression data = true ∧ hasLimit data = true ∧
        typedSize data.xIo.btOutVarType ≠ 0 ∧ b < 2 * usAddress + 8))

/-- The slave refresh of a variable that the search finds. -/
theorem slaveRefresh_found {vars : List ExtData} {usAddress : ℕ} {data : ExtData} {i : ℕ}
    (hnode : coveringNode vars usAddress = some (data, i)) (env : RefreshEnv) (s : RefreshState) :
    ∃ raw value, slaveRefreshExtDataWithRegs env vars s usAddress =
        { values := Function.update s.values i value
          regs := writeUnion s.regs usAddress (vBigEdianExtData data.xIo.btOutVarType data.xIo.btOutVarRuleType value
            (readUnion s.regs usAddress)) } ∧
      raw = vBigEdianExtData data.xIo.btOutVarType data.xIo.btOutVarRuleType
      (readUnion s.regs usAddress)
        (env.stack s usAddress) ∧
      value = refreshedValue env data s i raw raw := by
  refine ⟨_, _, ?_, rfl, rfl⟩
  rw [slaveRefreshExtDataWithRegs, hnode]
  rfl

/-- A refresh changes no other byte. -/
theorem slaveRefresh_untouched {vars : List ExtData} {usAddress : ℕ} {data : ExtData} {i : ℕ}
    (hnode : coveringNode vars usAddress = some (data, i)) (env : RefreshEnv) (s : RefreshState) {b : ℕ}
    (hb : ¬ RefreshTouches data usAddress b) : (slaveRefreshExtDataWithRegs env vars s usAddress).regs b = s.regs b := by
  obtain ⟨raw, value, heq, hraw, hvalue⟩ := slaveRefresh_found hnode env s
  obtain ⟨-, hle, hlt⟩ := coveringNode_covers hnode
  rw [heq]
  simp only
  by_cases hin : 2 * usAddress ≤ b ∧ b < 2 * usAddress + 8
  swap
  · exact writeUnion_outside (by omega)
  obtain ⟨k, rfl⟩ : ∃ k, b = 2 * usAddress + k := ⟨b - 2 * usAddress, by omega⟩
  have hk : k < 8 := by omega
  rw [writeUnion_inside k hk]
  by_cases hplain : hasExpression data = false ∧ data.eAttr ≠ .ai
  · rw [hvalue, refreshedValue_plain hplain.1 hplain.2, hraw, vBigEdianExtData_twice]
    rfl
  have hchanges : hasExpression data = true ∨ data.eAttr = .ai := by
    rw [← Bool.not_eq_true, not_and_or, not_not, not_not] at hplain
    exact hplain
  have hout : typeRegs data.xIo.btOutVarType * 2 ≤ k := by
    by_contra hreach
    exact hb ⟨by omega, hchanges, .inl (by omega)⟩
  cases hcopy : copiesUnion data.xIo.btOutVarType with
  | false => exact vBigEdianExtData_ge (by simp only [(edianSize_eq hcopy).1]; omega)
  | true =>
    -- the bytes copied along with an 8-bit value are those that were read from the same place
    obtain ⟨hedian, hone, htyped⟩ := copiesUnion_size hcopy
    have hfin : Fin.ofNat 8 k = ⟨k, hk⟩ := Fin.ext (Nat.mod_eq_of_lt hk)
    have hrestore : ¬ (hasExpression data = true ∧ hasLimit data = true ∧
        typedSize data.xIo.btOutVarType ≠ 0) :=
      fun ⟨hexp, hlimit, hsize⟩ => hb ⟨by omega, hchanges, .inr ⟨hcopy, hexp, hlimit, hsize, by omega⟩⟩
    rw [vBigEdianExtData_lt (by simp only; omega), edianSource_copy hcopy, hfin, hvalue,
      refreshedValue_ge (by simp only; omega) hrestore, hraw, vBigEdianExtData_lt (by simp only; omega),
      edianSource_copy hcopy, hfin]
    rfl

/-- Refreshes that do not touch a byte leave it as it is. -/
theorem slaveRefreshes_untouched {vars : List ExtData} {b : ℕ} {visits : List ℕ}
    (h : ∀ a ∈ visits, ∀ data i, coveringNode vars a = some (data, i) → ¬ RefreshTouches data a b)
    (env : RefreshEnv)
    (s : RefreshState) : (visits.foldl (slaveRefreshExtDataWithRegs env vars) s).regs b = s.regs b := by
  refine List.foldlRecOn (motive := fun t : RefreshState => t.regs b = s.regs b) visits _ rfl ?_
  intro t ht a ha
  rw [← ht]
  cases hnode : coveringNode vars a with
  | none => rw [slaveRefreshExtDataWithRegs, hnode]
  | some x => exact slaveRefresh_untouched hnode env t (h a ha x.1 x.2 hnode)

/-- Refreshes of other variables leave a stored value as it is. -/
theorem slaveRefreshes_values {vars : List ExtData} {j : ℕ} {visits : List ℕ}
    (h : ∀ a ∈ visits, ∀ data i, coveringNode vars a = some (data, i) → i ≠ j) (env : RefreshEnv)
    (s : RefreshState) :
    (visits.foldl (slaveRefreshExtDataWithRegs env vars) s).values j = s.values j := by
  refine List.foldlRecOn (motive := fun t : RefreshState => t.values j = s.values j) visits _ rfl ?_
  intro t ht a ha
  rw [← ht]
  cases hnode : coveringNode vars a with
  | none => rw [slaveRefreshExtDataWithRegs, hnode]
  | some x =>
    obtain ⟨raw, value, heq, -, -⟩ := slaveRefresh_found hnode env t
    rw [heq]
    exact Function.update_of_ne (h a ha x.1 x.2 hnode).symm _ _

/-- The loop of an accepted write is the refreshes at the visited addresses. -/
theorem slaveWrite_eq {usNRegs : ℕ} {usAddress : UInt16}
    (haccepted : SlaveWriteAccepted usAddress.toNat usNRegs)
    (env : RefreshEnv) (vars : List ExtData) (s : RefreshState) :
    refreshExtDataWithModbusSlave env vars usNRegs usAddress s =
      (slaveVisits vars usNRegs usAddress.toNat).foldl (slaveRefreshExtDataWithRegs env vars) s :=
  refreshExtDataWithModbusSlave_eq env vars usNRegs usAddress s (.inr haccepted.2)

/-- A variable that is found inside the written range is one that the write reaches. -/
theorem intersects_of_covering {vars : List ExtData} {usAddress usNRegs r : ℕ} {data : ExtData} {i : ℕ}
    (hnode : coveringNode vars r = some (data, i)) (hle : usAddress ≤ r)
    (hlt : r < usAddress + usNRegs) :
    Intersects usAddress usNRegs data :=
  ⟨r, hle, hlt, List.find?_some (p := fun x : ExtData × ℕ => coversOut r x.1) hnode⟩

/-- A byte of a variable belongs to a register that it covers. -/
theorem coversOut_of_ownsByte {data : ExtData} (henabled : data.bEnable = true) {b : ℕ}
    (hb : OwnsByte data b) :
    coversOut (b / 2) data = true := by
  rw [OwnsByte] at hb
  simp only [coversOut, henabled, Bool.true_and, Bool.and_eq_true, decide_eq_true_eq]
  omega

/-- A safe write does not touch the registers that have to stay. -/
theorem kept_untouched {vars : List ExtData} {usNRegs : ℕ} {usAddress : UInt16}
    (henabled : ∀ other ∈ vars, other.bEnable = true) (hdisjoint : vars.Pairwise OutDisjoint)
    (hsafe : SlaveWriteSafe vars usNRegs usAddress) {other : ExtData} (hother : other ∈ vars)
    (hkeeps : KeepsRegs usAddress.toNat usNRegs other) {b : ℕ} (hb : OwnsByte other b) :
    ∀ a ∈ slaveVisits vars usNRegs usAddress.toNat, ∀ data i, coveringNode vars a = some (data, i) →
      ¬ RefreshTouches data a b := by
  rintro a ha data i hnode ⟨hge, hchanges, hreach⟩
  obtain ⟨henabledData, hle, hlt⟩ := coveringNode_covers hnode
  obtain ⟨hend, data', i', hnode', haddr⟩ := (slaveVisits_spec hdisjoint usNRegs usAddress.toNat).1 a ha
  rw [hnode] at hnode'
  cases hnode'
  have hcovers := coversOut_of_ownsByte (henabled other hother) hb
  have hintersects : Intersects usAddress.toNat usNRegs data :=
    intersects_of_covering hnode (by omega) hend
  have hbehind : data.xIo.usAddr.toNat + typeRegs data.xIo.btOutVarType ≤ b / 2 := by
    by_contra hin
    have hself : coversOut (b / 2) data = true := by
      simp only [coversOut, henabledData, Bool.true_and, Bool.and_eq_true, decide_eq_true_eq]
      omega
    obtain ⟨j, hj⟩ := List.getElem?_of_mem hother
    have hfound := coveringNode_of_disjoint hdisjoint (coveringNode_getElem? hnode) hself
    rw [coveringNode_of_disjoint hdisjoint hj hcovers] at hfound
    cases hfound
    obtain ⟨hexp, hattr⟩ := hkeeps hintersects
    rcases hchanges with hexp' | hai
    · rw [hexp] at hexp'
      cases hexp'
    · exact hattr hai
  have hkept : ∀ lo hi, NoneKept vars usAddress.toNat usNRegs lo hi → ¬ (lo ≤ b / 2 ∧ b / 2 < hi) := by
    rintro lo hi hnone ⟨hlo, hhi⟩
    rw [hnone other hother hkeeps (b / 2) hlo hhi] at hcovers
    cases hcovers
  obtain ⟨hmid, haligned⟩ :=
    hsafe data (coveringNode_getElem? hnode |> List.mem_of_getElem?) hintersects
  by_cases hstart : data.xIo.usAddr < usAddress
  · have hstart' : data.xIo.usAddr.toNat < usAddress.toNat := hstart
    rcases hreach with hreach | ⟨hcopy, -, -, -, -⟩
    · exact hkept _ _ (hmid hstart).2 ⟨hbehind, by omega⟩
    · have := (copiesUnion_size hcopy).2.1
      omega
  · have hstart' : usAddress.toNat ≤ data.xIo.usAddr.toNat := by
      have : ¬ data.xIo.usAddr.toNat < usAddress.toNat := hstart
      omega
    rcases hreach with hreach | ⟨hcopy, hexp, hlimit, hsize, hreach⟩
    · omega
    · exact hkept _ _ (haligned hstart' hcopy hexp hlimit hsize) ⟨by omega, by omega⟩

/-- The walk around one visited address: the visits before it are at lower addresses, those after it lie
behind the variable. -/
theorem slaveVisits_split {vars : List ExtData} (hdisjoint : vars.Pairwise OutDisjoint)
    {usNRegs usAddress a : ℕ}
    (ha : a ∈ slaveVisits vars usNRegs usAddress) {data : ExtData} {i : ℕ}
    (hnode : coveringNode vars a = some (data, i)) :
    ∃ before after, slaveVisits vars usNRegs usAddress = before ++ a :: after ∧
      (∀ b ∈ before, usAddress ≤ b ∧ b < a) ∧
      ∀ b ∈ after, data.xIo.usAddr.toNat + typeRegs data.xIo.btOutVarType ≤ b ∧
        ∀ other j, coveringNode vars b = some (other, j) → j ≠ i := by
  obtain ⟨hvisits, hordered, -⟩ := slaveVisits_spec hdisjoint usNRegs usAddress
  obtain ⟨before, after, hsplit⟩ := List.append_of_mem ha
  rw [hsplit] at hvisits hordered
  obtain ⟨-, hafter, hbefore⟩ := List.pairwise_append.mp hordered
  refine ⟨before, after, hsplit, fun b hb => ?_, fun b hb => ?_⟩
  · obtain ⟨-, other, j, hother, haddr⟩ := hvisits b (List.mem_append_left _ hb)
    have := hbefore b hb a List.mem_cons_self other j hother
    have := (coveringNode_covers hother).2.2
    omega
  · have hend := (List.pairwise_cons.mp hafter).1 b hb data i hnode
    refine ⟨hend, ?_⟩
    rintro other j hother rfl
    have hsame := coveringNode_getElem? hother
    rw [coveringNode_getElem? hnode] at hsame
    cases hsame
    have := (coveringNode_covers hother).2.2
    omega

/-- The bytes that belong to a value are decoded from the variable's own registers. -/
theorem edianSource_own {type : EVarType} (rule : UInt8) {k : ℕ} (hk : k < gVarTypeSz type) :
    k < edianSize type ∧ edianSource type rule k < 2 * typeRegs type := by
  cases hcopy : copiesUnion type with
  | true =>
    rw [edianSource_copy hcopy, typeRegs]
    have := copiesUnion_size hcopy
    rw [typeRegs] at this
    omega
  | false =>
    have hedian := (edianSize_eq hcopy).1
    have hk' : k < edianSize type := by
      rw [hedian, typeRegs]
      omega
    exact ⟨hk', hedian ▸ (edianSource_spec type rule k hk').1⟩

/-- The visit of a variable at its own address makes it hold the value of its registers. -/
theorem slaveRefresh_holds {vars : List ExtData} {data : ExtData} {i : ℕ}
    (hnode : coveringNode vars data.xIo.usAddr.toNat = some (data, i)) (env : RefreshEnv)
    (s : RefreshState) :
    HoldsOwnRegs (slaveRefreshExtDataWithRegs env vars s data.xIo.usAddr.toNat) i data := by
  obtain ⟨raw, value, heq, -, -⟩ := slaveRefresh_found hnode env s
  intro k hk
  rw [heq]
  simp only [Function.update_self, readUnion_writeUnion]
  exact (vBigEdianExtData_inverse (edianSource_own 0 hk).1).symm

/-- Whether a variable holds the value of its registers depends on nothing else. -/
theorem HoldsOwnRegs.congr {data : ExtData} {i : ℕ} {s t : RefreshState} (h : HoldsOwnRegs s i data)
    (hvalue : t.values i = s.values i) (hregs : SameOwnRegs data s t) : HoldsOwnRegs t i data := by
  intro k hk
  obtain ⟨hlt, hown⟩ := edianSource_own data.xIo.btOutVarRuleType hk
  have hsize := (typedSize_le_edianSize data.xIo.btOutVarType).2
  rw [hvalue, h k hk, vBigEdianExtData_lt hlt, vBigEdianExtData_lt hlt, readUnion, readUnion]
  refine (hregs _ ?_).symm
  have hval : (Fin.ofNat 8 (edianSource data.xIo.btOutVarType data.xIo.btOutVarRuleType k)).val =
      edianSource data.xIo.btOutVarType data.xIo.btOutVarRuleType k :=
    Nat.mod_eq_of_lt (lt_of_lt_of_le (edianSource_spec _ _ _ hlt).1 hsize)
  rw [hval, OwnsByte]
  omega

/-- A safe write does to each variable what it should. -/
theorem slaveWrite_ok_of_safe {vars : List ExtData} {usNRegs : ℕ} {usAddress : UInt16}
    (henabled : ∀ other ∈ vars, other.bEnable = true) (hdisjoint : vars.Pairwise OutDisjoint)
    (haccepted : SlaveWriteAccepted usAddress.toNat usNRegs)
    (hsafe : SlaveWriteSafe vars usNRegs usAddress) :
    SlaveWriteOk vars usNRegs usAddress := by
  intro env s i data hi
  have hdata := List.mem_of_getElem? hi
  have hkept : KeepsRegs usAddress.toNat usNRegs data →
      SameOwnRegs data s (refreshExtDataWithModbusSlave env vars usNRegs usAddress s) := by
    intro hkeeps b hb
    rw [slaveWrite_eq haccepted]
    exact slaveRefreshes_untouched (kept_untouched henabled hdisjoint hsafe hdata hkeeps hb) env s
  constructor
  · rintro ⟨r, hle, hlt, hcovers⟩ hexp
    refine ⟨?_, fun hattr => hkept fun _ => ⟨hexp, hattr⟩⟩
    have hnode := coveringNode_of_disjoint hdisjoint hi hcovers
    obtain ⟨-, hler, hltr⟩ := coveringNode_covers hnode
    have hstart : usAddress.toNat ≤ data.xIo.usAddr.toNat := by
      by_contra hmid
      have hexp' := ((hsafe data hdata ⟨r, hle, hlt, hcovers⟩).1 (not_le.mp hmid)).1
      rw [hexp] at hexp'
      cases hexp'
    have hself :=
      coveringNode_of_disjoint hdisjoint hi (coversOut_self (henabled data hdata) (by omega))
    have hvisit := (slaveVisits_spec hdisjoint usNRegs usAddress.toNat).2.2 r data i hle hlt hnode
    rw [max_eq_left hstart] at hvisit
    obtain ⟨before, after, hsplit, -, hafter⟩ := slaveVisits_split hdisjoint hvisit hself
    rw [slaveWrite_eq haccepted, hsplit, List.foldl_append, List.foldl_cons]
    refine (slaveRefresh_holds hself env
      (before.foldl (slaveRefreshExtDataWithRegs env vars) s)).congr ?_ ?_
    · exact slaveRefreshes_values (fun a ha => (hafter a ha).2) env _
    · intro b hb
      refine slaveRefreshes_untouched (fun a ha other j _ htouches => ?_) env _
      have := (hafter a ha).1
      have := htouches.1
      rw [OwnsByte] at hb
      omega
  · intro hmisses
    refine ⟨?_, hkept fun hintersects => absurd hintersects hmisses⟩
    rw [slaveWrite_eq haccepted]
    refine slaveRefreshes_values (fun a ha other j hother => ?_) env s
    rintro rfl
    have hsame := coveringNode_getElem? hother
    rw [hi] at hsame
    cases hsame
    obtain ⟨hend, data', i', hnode', haddr⟩ :=
      (slaveVisits_spec hdisjoint usNRegs usAddress.toNat).1 a ha
    exact hmisses (intersects_of_covering hother (by omega) hend)

end DasEdge.VarManage

/-!
# When a slave write is correct

The safety of a write is also necessary. Arithmetic whose results consist of bytes that are one makes
every visit that stores something else than it read leave ones behind, which no later visit removes;
and a single byte in the registers in front of the visited address shows a value decoded from there.
-/

namespace DasEdge.VarManage

/-- A number whose bytes are all one. -/
def ones : UInt64 := 0x0101010101010101

/-- Arithmetic whose results have bytes that are all one; `limit` is what every comparison says. -/
def onesOps (limit : Bool) : DoubleOps :=
  ⟨fun _ => 0, fun _ => 0, fun _ => 0x01010101, fun _ _ => 0x0101010101010101, fun _ => false,
    fun _ _ => true,
    fun _ _ => limit, fun _ _ => ones⟩

/-- An environment in which every expression gives ones, until the value at `i` consists of ones. -/
def onesEnv (limit : Bool) (i : ℕ) : RefreshEnv :=
  ⟨onesOps limit, fun values _ _ => if values i = fun _ => 1 then none else some ones,
    fun _ => some .none, "",
    fun _ _ => 0⟩

/-- A number of ones is assigned as ones. -/
theorem setExtValue_ones (limit : Bool) (type : EVarType) (v : VarValue) (k : Fin 8) :
    setExtValue (onesOps limit) type ones v k = if k.val < typedSize type then 1 else v k := by
  have hbytes : ∀ k : Fin 8, ((0x0101010101010101 : ℤ) / 256 ^ k.val % 256).toNat.toUInt8 =
    1 := by decide
  have hhalf : ∀ k : Fin 8, k.val < 4 → ((0x01010101 : ℤ) / 256 ^ k.val % 256).toNat.toUInt8 =
    1 := by decide
  rw [setExtValue]
  split
  · next hk =>
    cases type with
    | bit =>
      have hzero : k = 0 := Fin.ext (by simpa [typedSize] using hk)
      rw [hzero]
      rfl
    | float => exact hhalf k hk
    | array | error => exact absurd hk (by simp [typedSize])
    | _ => exact hbytes k
  · rfl

/-- Scaling in ones changes bytes to ones only. -/
theorem tryRefreshAiValue_ones (limit : Bool) (data : ExtData) (v : VarValue) (k : Fin 8) :
    tryRefreshAiValue (onesOps limit) data v k = v k ∨
      tryRefreshAiValue (onesOps limit) data v k = 1 := by
  rw [tryRefreshAiValue]
  split
  · cases getExtValue (onesOps limit) data.xIo.btOutVarType v with
    | none => exact .inl rfl
    | some value =>
      simp only
      rw [show (onesOps limit).adcResult data.cfgAi value = ones from rfl, setExtValue_ones]
      split
      · exact .inr rfl
      · exact .inl rfl
  · exact .inl rfl

/-- In ones each byte that a refresh stores is the one it read or a one. -/
theorem refreshedValue_ones {limit : Bool} {i : ℕ} {s : RefreshState} (data : ExtData) (j : ℕ)
    (raw : VarValue)
    (hvalue : limit = true → s.values i = fun _ => 1) (k : Fin 8) :
    refreshedValue (onesEnv limit i) data s j raw raw k = raw k ∨
      refreshedValue (onesEnv limit i) data s j raw raw k = 1 := by
  have hscaled := tryRefreshAiValue_ones limit data raw k
  rw [refreshedValue, show (onesEnv limit i).ops = onesOps limit from rfl]
  rcases doexpValue_cases (onesEnv limit i) data
    (Function.update s.values j (tryRefreshAiValue (onesOps limit) data raw))
    (tryRefreshAiValue (onesOps limit) data raw) with hsame | ⟨-, -, text, x, hx, hset⟩
  · rw [hsame]
    exact hscaled
  have hones : x = ones := by
    simp only [onesEnv] at hx
    split at hx
    · cases hx
    · exact (Option.some.inj hx).symm
  rw [hset, hones, show (onesEnv limit i).ops = onesOps limit from rfl, Bool.true_and]
  split
  · next hrestore =>
    cases limit with
    | false =>
      have hcheck : checkExtValue (onesOps false) data raw = true := by
        rw [checkExtValue]
        split
        · rfl
        · simp [onesOps]
      rw [hcheck] at hrestore
      cases hrestore
    | true =>
      by_cases hj : j = i
      · rw [hj, hvalue rfl]
        exact .inr rfl
      · simp only [onesEnv, Function.update_of_ne (Ne.symm hj), hvalue rfl, if_true] at hx
        cases hx
  · simp only [setExtValue_ones]
    split
    · exact .inr rfl
    · exact hscaled

/-- In ones a variable whose expression counts is stored as ones: in its member, or, when every result
is given up, as a whole. -/
theorem refreshedValue_ones_self {limit : Bool} {i : ℕ} {data : ExtData} {s : RefreshState}
    {raw : VarValue}
    (hexp : hasExpression data = true) (hsize : typedSize data.xIo.btOutVarType ≠ 0) {k : Fin 8}
    (hk : if limit then hasLimit data = true ∧ s.values i = (fun _ => 1)
      else k.val < typedSize data.xIo.btOutVarType) :
    refreshedValue (onesEnv limit i) data s i raw raw k = 1 := by
  obtain ⟨text, htext⟩ := doexpValue_text (onesEnv limit i) hexp (fun _ => by simp [onesEnv])
    (Function.update s.values i (tryRefreshAiValue (onesOps limit) data raw))
    (tryRefreshAiValue (onesOps limit) data raw)
  obtain ⟨value, hvalue⟩ := getExtValue_some (onesOps limit) hsize
    (tryRefreshAiValue (onesOps limit) data raw)
  rw [refreshedValue, show (onesEnv limit i).ops = onesOps limit from rfl, htext, doexpText,
    show (onesEnv limit i).ops = onesOps limit from rfl, hvalue]
  by_cases hdone : tryRefreshAiValue (onesOps limit) data raw = fun _ => 1
  · simp [onesEnv, hdone]
  · simp only [onesEnv, Function.update_self, if_neg hdone,
      show ∀ x y, (onesOps limit).ne x y = true from
      fun _ _ => rfl, if_true, Bool.true_and]
    cases limit with
    | false =>
      have hcheck : checkExtValue (onesOps false) data raw = true := by
        rw [checkExtValue]
        split
        · rfl
        · simp [onesOps]
      rw [hcheck, if_neg (by decide), setExtValue_ones, if_pos (by simpa using hk)]
    | true =>
      obtain ⟨hlimit, hold⟩ : hasLimit data = true ∧ s.values i = (fun _ => 1) := by simpa using hk
      rw [checkExtValue_limit (onesOps true) hlimit hsize (fun _ _ => rfl), if_pos (by decide), hold]

/-- Refreshes in ones keep the bytes that are ones, and the value at `i` if it is made of ones. -/
theorem slaveRefreshes_ones {vars : List ExtData} {limit : Bool} {i : ℕ} {data : ExtData}
    (hself : limit = true → vars[i]? = some data ∧ hasExpression data = true ∧ hasLimit data = true ∧
      typedSize data.xIo.btOutVarType ≠ 0) (visits : List ℕ) {s : RefreshState}
    (hvalue : limit = true → s.values i = fun _ => 1) :
    (limit = true → (visits.foldl (slaveRefreshExtDataWithRegs (onesEnv limit i) vars) s).values i =
      fun _ => 1) ∧
      ∀ b, s.regs b = 1 →
        (visits.foldl (slaveRefreshExtDataWithRegs (onesEnv limit i) vars) s).regs b = 1 := by
  refine List.foldlRecOn (motive := fun t : RefreshState => (limit = true → t.values i = fun _ => 1) ∧
    ∀ b, s.regs b = 1 → t.regs b = 1) visits _ ⟨hvalue, fun _ h => h⟩ ?_
  rintro t ⟨htvalue, htregs⟩ a ha
  cases hnode : coveringNode vars a with
  | none =>
    rw [slaveRefreshExtDataWithRegs, hnode]
    exact ⟨htvalue, htregs⟩
  | some x =>
    obtain ⟨other, j⟩ := x
    obtain ⟨raw, value, heq, hraw, hother⟩ := slaveRefresh_found hnode (onesEnv limit i) t
    rw [heq]
    constructor
    · intro hlimit
      by_cases hj : j = i
      · subst hj
        obtain ⟨hi, hexp, hlim, hsize⟩ := hself hlimit
        have hsame := coveringNode_getElem? hnode
        rw [hi] at hsame
        cases hsame
        simp only [Function.update_self]
        funext k
        rw [hother]
        exact refreshedValue_ones_self hexp hsize (by rw [if_pos hlimit]; exact ⟨hlim, htvalue hlimit⟩)
      · exact (Function.update_of_ne (Ne.symm hj) _ _).trans (htvalue hlimit)
    · intro b hb
      have hone := htregs b hb
      simp only
      by_cases hin : 2 * a ≤ b ∧ b < 2 * a + 8
      swap
      · rw [writeUnion_outside (by omega)]
        exact hone
      obtain ⟨k, rfl⟩ : ∃ k, b = 2 * a + k := ⟨b - 2 * a, by omega⟩
      have hk : k < 8 := by omega
      rw [writeUnion_inside k hk]
      by_cases hedian : k < edianSize other.xIo.btOutVarType
      swap
      · rw [vBigEdianExtData_ge (by simp only; omega)]
        exact hone
      rw [vBigEdianExtData_lt (by simp only; exact hedian)]
      rcases refreshedValue_ones other j raw htvalue
        (Fin.ofNat 8 (edianSource other.xIo.btOutVarType other.xIo.btOutVarRuleType k))
          with hread | hset
      · have hback := congrFun (vBigEdianExtData_twice other.xIo.btOutVarType other.xIo.btOutVarRuleType
          (readUnion t.regs a) ((onesEnv limit i).stack t a)) ⟨k, hk⟩
        rw [vBigEdianExtData_lt (by simp only; exact hedian), ← hraw] at hback
        rw [hother, hread, hback]
        exact hone
      · rw [hother, hset]

/-- What a correct write may not change stays. -/
theorem SlaveWriteOk.same {vars : List ExtData} {usNRegs : ℕ} {usAddress : UInt16}
    (hok : SlaveWriteOk vars usNRegs usAddress) {other : ExtData} (hother : other ∈ vars)
    (hkeeps : KeepsRegs usAddress.toNat usNRegs other) (env : RefreshEnv) (s : RefreshState) :
    SameOwnRegs other s (refreshExtDataWithModbusSlave env vars usNRegs usAddress s) := by
  obtain ⟨j, hj⟩ := List.getElem?_of_mem hother
  obtain ⟨hreached, hmissed⟩ := hok env s j other hj
  by_cases hintersects : Intersects usAddress.toNat usNRegs other
  · obtain ⟨hexp, hattr⟩ := hkeeps hintersects
    exact (hreached hintersects hexp).2 hattr
  · exact (hmissed hintersects).2

/-- When a write is correct, a visit that can store ones reaches no register that has to stay. -/
theorem noneKept_of_ones {vars : List ExtData} {usNRegs : ℕ} {usAddress : UInt16}
    (hdisjoint : vars.Pairwise OutDisjoint) (haccepted : SlaveWriteAccepted usAddress.toNat usNRegs)
    (hok : SlaveWriteOk vars usNRegs usAddress) {a lo hi : ℕ} {data : ExtData} {i : ℕ}
    (ha : a ∈ slaveVisits vars usNRegs usAddress.toNat) (hnode : coveringNode vars a = some (data, i))
    (limit : Bool) (hexp : hasExpression data = true) (hsize : typedSize data.xIo.btOutVarType ≠ 0)
    (hlimit : limit = true → hasLimit data = true)
    (hreach : ∀ r, lo ≤ r → r < hi → a ≤ r ∧ 2 * (r - a) < edianSize data.xIo.btOutVarType ∧
      (limit = false → edianSize data.xIo.btOutVarType = typedSize data.xIo.btOutVarType)) :
    NoneKept vars usAddress.toNat usNRegs lo hi := by
  intro other hother hkeeps r hlo hhi
  by_contra hcovers
  obtain ⟨hle, hlt, htyped⟩ := hreach r hlo hhi
  have hedian := (typedSize_le_edianSize data.xIo.btOutVarType).2
  have hself : limit = true → vars[i]? = some data ∧ hasExpression data = true ∧ hasLimit data = true ∧
      typedSize data.xIo.btOutVarType ≠ 0 :=
      fun h => ⟨coveringNode_getElem? hnode, hexp, hlimit h, hsize⟩
  have hsame := hok.same hother hkeeps (onesEnv limit i) (constState 1 0) (2 * r) (by
    simp only [coversOut, Bool.not_eq_false, Bool.and_eq_true, decide_eq_true_eq] at hcovers
    simp only [OwnsByte]
    omega)
  obtain ⟨before, after, hsplit, -, -⟩ := slaveVisits_split hdisjoint ha hnode
  rw [slaveWrite_eq haccepted, hsplit, List.foldl_append, List.foldl_cons] at hsame
  have hbefore := (slaveRefreshes_ones hself before (s := constState 1 0) (fun _ => rfl)).1
  have hvisit : ∀ t : RefreshState, (limit = true → t.values i = fun _ => 1) →
      (slaveRefreshExtDataWithRegs (onesEnv limit i) vars t a).regs (2 * r) = 1 := by
    intro t ht
    obtain ⟨raw, value, heq, -, hvalue⟩ := slaveRefresh_found hnode (onesEnv limit i) t
    obtain ⟨k, rfl⟩ : ∃ k, r = a + k := ⟨r - a, by omega⟩
    have hk : 2 * k < edianSize data.xIo.btOutVarType := by omega
    have hsource := (edianSource_spec data.xIo.btOutVarType data.xIo.btOutVarRuleType (2 * k) hk).1
    have hval : (Fin.ofNat 8 (edianSource data.xIo.btOutVarType data.xIo.btOutVarRuleType
      (2 * k))).val =
        edianSource data.xIo.btOutVarType data.xIo.btOutVarRuleType (2 * k) :=
        Nat.mod_eq_of_lt (by omega)
    rw [heq, Nat.mul_add]
    simp only
    rw [writeUnion_inside (2 * k) (by omega), vBigEdianExtData_lt (by simp only; exact hk), hvalue]
    refine refreshedValue_ones_self hexp hsize ?_
    split
    · next h => exact ⟨hlimit h, ht h⟩
    · next h => rw [hval, ← htyped (by simpa using h)]; exact hsource
  have hafter := (slaveRefreshes_ones hself after
    (s := slaveRefreshExtDataWithRegs (onesEnv limit i) vars
      (before.foldl (slaveRefreshExtDataWithRegs (onesEnv limit i) vars) (constState 1 0)) a)
      (fun h => by
        have := (slaveRefreshes_ones hself [a] hbefore).1 h
        exact this)).2 (2 * r) (hvisit _ hbefore)
  rw [hafter] at hsame
  exact (by decide : (1 : UInt8) ≠ 0) hsame

/-- Scaling zeros to zero gives zeros. -/
theorem tryRefreshAiValue_zero (data : ExtData) {v : VarValue} (hv : v = fun _ => 0) :
    tryRefreshAiValue zeroOps data v = fun _ => 0 := by
  rw [tryRefreshAiValue]
  split
  · cases getExtValue zeroOps data.xIo.btOutVarType v with
    | none => exact hv
    | some value =>
      funext k
      have hcast : castDouble zeroOps data.xIo.btOutVarType
          (zeroOps.adcResult data.cfgAi value) = 0 := by
        cases data.xIo.btOutVarType <;> rfl
      simp only [setExtValue, hcast, hv]
      simp
  · exact hv

/-- When a write is correct, a variable that it enters in its middle has an expression. -/
theorem hasExpression_of_mid {vars : List ExtData} {usNRegs : ℕ} {usAddress : UInt16}
    (hdisjoint : vars.Pairwise OutDisjoint) (haccepted : SlaveWriteAccepted usAddress.toNat usNRegs)
    (hok : SlaveWriteOk vars usNRegs usAddress) {data : ExtData} {i : ℕ}
    (ha : usAddress.toNat ∈ slaveVisits vars usNRegs usAddress.toNat)
    (hnode : coveringNode vars usAddress.toNat = some (data, i))
    (hintersects : Intersects usAddress.toNat usNRegs data)
    (hmid : data.xIo.usAddr.toNat < usAddress.toNat) :
    hasExpression data = true := by
  by_contra hexp
  -- the first register of the variable holds the only byte that is not zero, and the visit misses it
  obtain ⟨s, hs⟩ : ∃ s : RefreshState,
      s = ⟨fun _ _ => 0, fun b => if b = 2 * data.xIo.usAddr.toNat then 1 else 0⟩ :=
    ⟨_, rfl⟩
  have hholds := ((hok (quietEnv zeroOps) s i data (coveringNode_getElem? hnode)).1 hintersects
    (by simpa using hexp)).1
  obtain ⟨-, hle, hlt⟩ := coveringNode_covers hnode
  have hcopy : copiesUnion data.xIo.btOutVarType = false := by
    by_contra hcopy
    have := (copiesUnion_size (by simpa using hcopy)).2.1
    omega
  obtain ⟨hedian, htyped, -⟩ := edianSize_eq hcopy
  have hsize := (typedSize_le_edianSize data.xIo.btOutVarType).2
  obtain ⟨hsource, hinverse⟩ :=
    edianSource_spec data.xIo.btOutVarType data.xIo.btOutVarRuleType 0 (by omega)
  have hbyte := hholds ⟨edianSource data.xIo.btOutVarType data.xIo.btOutVarRuleType 0, by omega⟩ (by
    have hregs : edianSize data.xIo.btOutVarType = gVarTypeSz data.xIo.btOutVarType := by
      revert hcopy
      cases data.xIo.btOutVarType <;> decide
    simp only
    omega)
  rw [vBigEdianExtData_lt (by simp only; exact hsource)] at hbyte
  simp only [hinverse] at hbyte
  obtain ⟨before, after, hsplit, hbefore, hafter⟩ := slaveVisits_split hdisjoint ha hnode
  have hnil : before = [] := by
    cases before with
    | nil => rfl
    | cons b rest =>
      have := hbefore b List.mem_cons_self
      omega
  subst hnil
  rw [slaveWrite_eq haccepted, hsplit, List.nil_append, List.foldl_cons,
    slaveRefreshes_values (fun b hb => (hafter b hb).2)] at hbyte
  have hfirst : (usAddress.toNat :: after).foldl
    (slaveRefreshExtDataWithRegs (quietEnv zeroOps) vars) s =
      after.foldl (slaveRefreshExtDataWithRegs (quietEnv zeroOps) vars)
        (slaveRefreshExtDataWithRegs (quietEnv zeroOps) vars s usAddress.toNat) := rfl
  rw [← hfirst, readUnion] at hbyte
  rw [slaveRefreshes_untouched (b := 2 * data.xIo.usAddr.toNat + (Fin.ofNat 8 0).val)] at hbyte
  · obtain ⟨raw, value, heq, hraw, hvalue⟩ := slaveRefresh_found hnode (quietEnv zeroOps) s
    have hzero : raw = fun _ => 0 := by
      funext k
      rw [hraw, hs]
      by_cases hk : k.val < edianSize data.xIo.btOutVarType
      · rw [vBigEdianExtData_lt hk, readUnion]
        exact if_neg (by omega)
      · exact vBigEdianExtData_ge (by omega)
    rw [heq] at hbyte
    simp only [Function.update_self] at hbyte
    rw [hvalue, refreshedValue_quiet, tryRefreshAiValue_zero data hzero, hs] at hbyte
    exact (by decide : (0 : UInt8) ≠ 1) (hbyte.trans (if_pos rfl))
  · intro b hb other j _ htouches
    have := htouches.1
    have hzero : (Fin.ofNat 8 0).val = 0 := rfl
    rcases List.mem_cons.mp hb with rfl | hb
    · omega
    · have := (hafter b hb).1
      omega

/-- An accepted slave write to enabled variables with disjoint registers does to each of them what it
should exactly when it is safe. -/
theorem slaveWrite_ok_iff (vars : List ExtData) (usNRegs : ℕ) (usAddress : UInt16)
    (henabled : ∀ other ∈ vars, other.bEnable = true) (hdisjoint : vars.Pairwise OutDisjoint)
    (haccepted : SlaveWriteAccepted usAddress.toNat usNRegs) :
    SlaveWriteOk vars usNRegs usAddress ↔ SlaveWriteSafe vars usNRegs usAddress := by
  refine ⟨fun hok data hdata hintersects => ?_, slaveWrite_ok_of_safe henabled hdisjoint haccepted⟩
  obtain ⟨i, hi⟩ := List.getElem?_of_mem hdata
  obtain ⟨r, hle, hlt, hcovers⟩ := id hintersects
  have hnode := coveringNode_of_disjoint hdisjoint hi hcovers
  obtain ⟨henabledData, hler, hltr⟩ := coveringNode_covers hnode
  have hvisit := (slaveVisits_spec hdisjoint usNRegs usAddress.toNat).2.2 r data i hle hlt hnode
  constructor
  · intro hmid
    have hmid' : data.xIo.usAddr.toNat < usAddress.toNat := hmid
    rw [max_eq_right (by omega)] at hvisit
    have hstart : coveringNode vars usAddress.toNat = some (data, i) := by
      refine coveringNode_of_disjoint hdisjoint hi ?_
      simp only [coversOut, henabledData, Bool.true_and, Bool.and_eq_true, decide_eq_true_eq]
      omega
    have hexp := hasExpression_of_mid hdisjoint haccepted hok hvisit hstart hintersects hmid'
    have hcopy : copiesUnion data.xIo.btOutVarType = false := by
      by_contra hcopy
      have := (copiesUnion_size (by simpa using hcopy)).2.1
      omega
    obtain ⟨hedian, htyped, hpos⟩ := edianSize_eq hcopy
    refine ⟨hexp, noneKept_of_ones hdisjoint haccepted hok hvisit hstart false hexp (by omega)
      (by simp) ?_⟩
    exact fun r hlo hhi => ⟨by omega, by omega, fun _ => htyped⟩
  · intro haligned hcopy hexp hlimit hsize
    have haligned' : usAddress.toNat ≤ data.xIo.usAddr.toNat := haligned
    rw [max_eq_left haligned'] at hvisit
    have hself := coveringNode_of_disjoint hdisjoint hi (coversOut_self henabledData (by omega))
    refine noneKept_of_ones hdisjoint haccepted hok hvisit hself true hexp hsize (fun _ => hlimit) ?_
    have := (copiesUnion_size hcopy).1
    exact fun r hlo hhi => ⟨by omega, by omega, by simp⟩

/-- A write of two registers that covers a 16-bit variable and the first half of a 32-bit one. -/
theorem slaveWrite_ok_pair :
    SlaveWriteOk [{ xIo := { usAddr := 1024 } },
      { xIo := { usAddr := 1025, btOutVarType := .int32 } }] 2 1024 ↔
      SlaveWriteSafe [{ xIo := { usAddr := 1024 } },
      { xIo := { usAddr := 1025, btOutVarType := .int32 } }] 2 1024 :=
  slaveWrite_ok_iff _ 2 1024 (by simp) (List.pairwise_pair.mpr (outDisjoint_of_le (by decide))) (by
    constructor <;> decide)

/-- A write of the second register of a 32-bit variable decodes its value from there. -/
theorem slaveWrite_mid_misdecodes :
    ¬ ∀ (vars : List ExtData) (usNRegs : ℕ) (usAddress : UInt16),
      (∀ other ∈ vars, other.bEnable = true) →
      vars.Pairwise OutDisjoint → SlaveWriteAccepted usAddress.toNat usNRegs →
      SlaveWriteOk vars usNRegs usAddress := by
  intro h
  have hholds := ((h [{ xIo := { usAddr := 1024, btOutVarType := .int32 } }] 1 1025 (by simp)
    (List.pairwise_singleton _ _) (by constructor <;> decide) (quietEnv zeroOps)
    ⟨fun _ _ => 0, fun b => if b = 2048 then 1 else 0⟩ 0 _ rfl).1 ⟨1025, by decide, by decide, by
      decide⟩ rfl).1
    3 (by decide)
  have hvisits : slaveVisits [{ xIo := { usAddr := 1024, btOutVarType := .int32 } }] 1
      (UInt16.toNat 1025) = [1025] := by
    have hnode : coveringNode [{ xIo := { usAddr := 1024, btOutVarType := .int32 } }]
      (UInt16.toNat 1025) =
        some ({ xIo := { usAddr := 1024, btOutVarType := .int32 } }, 0) := rfl
    rw [slaveVisits_covered (by decide) hnode, slaveVisits]
    rfl
  rw [refreshExtDataWithModbusSlave_eq _ _ _ _ _ (by decide), hvisits] at hholds
  exact absurd hholds (by decide)

end DasEdge.VarManage
