import DasEdge.VarManage.MasterDelivery
import DasEdge.VarManage.RefreshFootprint

/-!
# A master refresh and the output range of its variable

The response is staged in the output area with the input size and the value is written back with the
footprint of the output type, so a refresh stays within the output range exactly when the input fits
and no foreign bytes are copied along with an 8-bit value.
-/

namespace DasEdge.VarManage

/-- No register is in the output ranges of both variables. -/
def OutDisjoint (a b : ExtData) : Prop := ∀ r, ¬ (coversOut r a = true ∧ coversOut r b = true)

/-- A byte of the registers in the output range of a variable. -/
def OwnsByte (data : ExtData) (b : ℕ) : Prop :=
  2 * data.xIo.usAddr.toNat ≤ b ∧ b < 2 * (data.xIo.usAddr.toNat + typeRegs data.xIo.btOutVarType)

/-- The master refresh of one variable: `__refresh_regs` and `__MasterRefreshExtDataWithRegs`. -/
def masterRefresh (env : RefreshEnv) (vars : List ExtData) (s : RefreshState) (data : ExtData)
    (response : ℕ → UInt8) : RefreshState :=
  masterRefreshExtDataWithRegs env vars
    (refreshRegs s response data.xIo.usAddr.toNat (typeRegs data.xIo.btInVarType)) data.xIo.usAddr.toNat

/-- The refresh of the variable at `i` changes no register outside its output range and no other
value. -/
def RefreshIsolated (vars : List ExtData) (i : ℕ) (data : ExtData) : Prop :=
  ∀ env s response, (∀ b, ¬ OwnsByte data b → (masterRefresh env vars s data response).regs b =
    s.regs b) ∧
    ∀ j, j ≠ i → (masterRefresh env vars s data response).values j = s.values j

/-- The input fits into the output range; a type without registers is covered by no other variable; and
a type that copies the whole union is fed by one that does, with no expression whose result could be
given up for the old value. -/
def RefreshFits (vars : List ExtData) (data : ExtData) : Prop :=
  typeRegs data.xIo.btInVarType ≤ typeRegs data.xIo.btOutVarType ∧
    (data.xIo.btOutVarType = .error → ∀ other ∈ vars, coversOut data.xIo.usAddr.toNat other = false) ∧
    (copiesUnion data.xIo.btOutVarType = true → copiesUnion data.xIo.btInVarType = true ∧
      ¬ (hasExpression data = true ∧ hasLimit data = true ∧ typedSize data.xIo.btOutVarType ≠ 0))

/-- Among disjoint variables the one that covers a register is the one that is found. -/
theorem coveringNode_of_disjoint {vars : List ExtData} {i : ℕ} {data : ExtData} {usAddress : ℕ}
    (hdisjoint : vars.Pairwise OutDisjoint) (hi : vars[i]? = some data)
    (hcovers : coversOut usAddress data = true) :
    coveringNode vars usAddress = some (data, i) := by
  cases hnode : coveringNode vars usAddress with
  | none =>
    have hmem : (data, i) ∈ vars.zipIdx := List.mem_zipIdx_iff_getElem?.mpr hi
    exact absurd hcovers (List.find?_eq_none.mp hnode (data, i) hmem)
  | some x =>
    obtain ⟨other, j⟩ := x
    have hj := coveringNode_getElem? hnode
    have hother : coversOut usAddress other = true :=
      List.find?_some (p := fun x : ExtData × ℕ => coversOut usAddress x.1) hnode
    obtain ⟨hilt, rfl⟩ := List.getElem?_eq_some_iff.mp hi
    obtain ⟨hjlt, rfl⟩ := List.getElem?_eq_some_iff.mp hj
    rcases Nat.lt_trichotomy i j with hlt | rfl | hgt
    · exact absurd ⟨hcovers, hother⟩
        (List.pairwise_iff_getElem.mp hdisjoint i j hilt hjlt hlt usAddress)
    · rfl
    · exact absurd ⟨hother, hcovers⟩
        (List.pairwise_iff_getElem.mp hdisjoint j i hjlt hilt hgt usAddress)

/-- An output range that ends before another begins is disjoint from it. -/
theorem outDisjoint_of_le {a b : ExtData}
    (h : a.xIo.usAddr.toNat + typeRegs a.xIo.btOutVarType ≤ b.xIo.usAddr.toNat) : OutDisjoint a b := by
  rintro r ⟨ha, hb⟩
  simp only [coversOut, Bool.and_eq_true, decide_eq_true_eq] at ha hb
  omega

/-- An enabled variable with registers covers its own address. -/
theorem coversOut_self {data : ExtData} (henabled : data.bEnable = true)
    (hregs : 0 < typeRegs data.xIo.btOutVarType) : coversOut data.xIo.usAddr.toNat data = true := by
  simp only [coversOut, henabled, Bool.true_and, Bool.and_eq_true, decide_eq_true_eq]
  omega

/-- Only the invalid output type has no registers. -/
theorem typeRegs_pos {type : EVarType} (h : type ≠ .error) : 0 < typeRegs type := by
  cases type <;> first | decide | exact absurd rfl h

/-- A refresh of a variable that the search finds. -/
theorem masterRefresh_found (env : RefreshEnv) {vars : List ExtData} {data : ExtData} {i : ℕ}
    (hnode : coveringNode vars data.xIo.usAddr.toNat = some (data, i)) (s : RefreshState)
    (response : ℕ → UInt8) :
    ∃ raw value, masterRefresh env vars s data response =
        { values := Function.update s.values i value
          regs := writeUnion (refreshRegs s response data.xIo.usAddr.toNat
          (typeRegs data.xIo.btInVarType)).regs
            data.xIo.usAddr.toNat (vBigEdianExtData data.xIo.btOutVarType
            data.xIo.btOutVarRuleType value
              (readUnion (refreshRegs s response data.xIo.usAddr.toNat
              (typeRegs data.xIo.btInVarType)).regs
                data.xIo.usAddr.toNat)) } ∧
      raw = vBigEdianExtData data.xIo.btInVarType data.xIo.btInVarRuleType
        (readUnion (refreshRegs s response data.xIo.usAddr.toNat (typeRegs data.xIo.btInVarType)).regs
          data.xIo.usAddr.toNat)
        (env.stack (refreshRegs s response data.xIo.usAddr.toNat (typeRegs data.xIo.btInVarType))
          data.xIo.usAddr.toNat) ∧
      value = refreshedValue env data
      (refreshRegs s response data.xIo.usAddr.toNat (typeRegs data.xIo.btInVarType))
        i raw (doSetOutValue env.ops data data.xIo.btInVarType raw) := by
  refine ⟨_, _, ?_, rfl, rfl⟩
  rw [masterRefresh, masterRefreshExtDataWithRegs, hnode]
  rfl

/-- Staging the response only touches the input range. -/
theorem refreshRegs_ge {s : RefreshState} {response : ℕ → UInt8} {usAddr nregs b : ℕ}
    (hb : b < 2 * usAddr ∨ 2 * usAddr + 2 * nregs ≤ b) :
    (refreshRegs s response usAddr nregs).regs b = s.regs b :=
  if_neg (by omega)

/-- The staged response. -/
theorem refreshRegs_lt {s : RefreshState} {response : ℕ → UInt8} {usAddr nregs k : ℕ}
    (hk : k < 2 * nregs) :
    (refreshRegs s response usAddr nregs).regs (2 * usAddr + k) = response k := by
  rw [refreshRegs]
  simp only
  rw [if_pos (by omega), Nat.add_sub_cancel_left]

/-- A refresh that fits keeps the registers outside the output range. -/
theorem masterRefresh_regs_of_fits {env : RefreshEnv} {vars : List ExtData} {data : ExtData} {i : ℕ}
    (hnode : coveringNode vars data.xIo.usAddr.toNat = some (data, i)) (hfits : RefreshFits vars data)
    (hregs : 0 < typeRegs data.xIo.btOutVarType) (s : RefreshState) (response : ℕ → UInt8) (b : ℕ)
    (hb : ¬ OwnsByte data b) : (masterRefresh env vars s data response).regs b = s.regs b := by
  obtain ⟨hsize, -, hcopies⟩ := hfits
  obtain ⟨raw, value, heq, hraw, hvalue⟩ := masterRefresh_found env hnode s response
  rw [OwnsByte] at hb
  rw [heq]
  simp only
  have hstaged : (refreshRegs s response data.xIo.usAddr.toNat (typeRegs data.xIo.btInVarType)).regs b =
      s.regs b := refreshRegs_ge (by omega)
  by_cases hin : 2 * data.xIo.usAddr.toNat ≤ b ∧ b < 2 * data.xIo.usAddr.toNat + 8
  · obtain ⟨k, rfl⟩ : ∃ k, b = 2 * data.xIo.usAddr.toNat + k :=
      ⟨b - 2 * data.xIo.usAddr.toNat, by omega⟩
    have hk : k < 8 := by omega
    rw [writeUnion_inside k hk]
    cases hcopy : copiesUnion data.xIo.btOutVarType with
    | false =>
      obtain ⟨hedian, -, -⟩ := edianSize_eq hcopy
      rw [vBigEdianExtData_ge (by simp only; omega)]
      exact hstaged
    | true =>
      -- the bytes copied along with an 8-bit value are those that were read from the same place
      obtain ⟨hedian, hle, htyped⟩ := copiesUnion_size hcopy
      obtain ⟨hcopyIn, hrestore⟩ := hcopies hcopy
      obtain ⟨hedianIn, -, -⟩ := copiesUnion_size hcopyIn
      have hfin : Fin.ofNat 8 k = ⟨k, hk⟩ := Fin.ext (Nat.mod_eq_of_lt hk)
      rw [vBigEdianExtData_lt (by simp only; omega), edianSource_copy hcopy, hfin, hvalue,
        refreshedValue_ge (by simp only; omega) hrestore, doSetOutValue_ge (by simp only; omega), hraw,
        vBigEdianExtData_lt (by simp only; omega), edianSource_copy hcopyIn, hfin]
      exact hstaged
  · rw [writeUnion_outside (by omega)]
    exact hstaged

/-- Arithmetic that says yes to every comparison and zero to everything else. -/
def zeroOps : DoubleOps :=
  ⟨fun _ => 0, fun _ => 0, fun _ => 0, fun _ _ => 0, fun _ => true, fun _ _ => true,
    fun _ _ => true, fun _ _ => 0⟩

/-- An environment in which every expression gives a new value. -/
def loudEnv : RefreshEnv := ⟨zeroOps, fun _ _ _ => some 0, fun _ => some .none, "", fun _ _ => 0⟩

/-- Where every expression gives a new value, one with a limit puts the old value back. -/
theorem refreshedValue_loud {data : ExtData} {s : RefreshState} {i : ℕ} {raw converted : VarValue}
    (hexp : hasExpression data = true) (hlimit : hasLimit data = true)
    (hsize : typedSize data.xIo.btOutVarType ≠ 0) :
    refreshedValue loudEnv data s i raw converted = s.values i := by
  have hcheck := checkExtValue_limit zeroOps hlimit hsize (fun _ _ => rfl) raw
  have hdo : ∀ values v, (doexpValue loudEnv data values v).1 = true := by
    intro values v
    obtain ⟨text, htext⟩ := doexpValue_text loudEnv hexp (fun _ => by simp [loudEnv]) values v
    obtain ⟨value, hvalue⟩ := getExtValue_some zeroOps hsize v
    rw [htext, doexpText, show loudEnv.ops = zeroOps from rfl, hvalue]
    rfl
  rw [refreshedValue]
  simp only [hdo, show loudEnv.ops = zeroOps from rfl, hcheck, Bool.not_false, Bool.and_self, if_true]

/-- The registers outside its output range that a refresh leaves to an encoding with a byte order. -/
theorem masterRefresh_byte_order {env : RefreshEnv} {vars : List ExtData} {data : ExtData} {i : ℕ}
    (hnode : coveringNode vars data.xIo.usAddr.toNat = some (data, i))
    (hcopy : copiesUnion data.xIo.btOutVarType = false) (s : RefreshState)
    (response : ℕ → UInt8) (k : ℕ)
    (hk : k < 8) (hout : 2 * typeRegs data.xIo.btOutVarType ≤ k)
    (hin : k < 2 * typeRegs data.xIo.btInVarType) :
    (masterRefresh env vars s data response).regs (2 * data.xIo.usAddr.toNat + k) = response k := by
  obtain ⟨raw, value, heq, -, -⟩ := masterRefresh_found env hnode s response
  rw [heq]
  simp only
  rw [writeUnion_inside k hk, vBigEdianExtData_ge (by simp only [(edianSize_eq hcopy).1]; exact hout)]
  exact refreshRegs_lt hin

/-- The registers that a refresh of a copying type writes. -/
theorem masterRefresh_byte_copy {env : RefreshEnv} {vars : List ExtData} {data : ExtData} {i : ℕ}
    (hnode : coveringNode vars data.xIo.usAddr.toNat = some (data, i))
    (hcopy : copiesUnion data.xIo.btOutVarType = true) (s : RefreshState) (response : ℕ → UInt8) (k : ℕ)
    (hk : k < 8) :
    let staged := refreshRegs s response data.xIo.usAddr.toNat (typeRegs data.xIo.btInVarType)
    let raw := vBigEdianExtData data.xIo.btInVarType data.xIo.btInVarRuleType
      (readUnion staged.regs data.xIo.usAddr.toNat) (env.stack staged data.xIo.usAddr.toNat)
    (masterRefresh env vars s data response).regs (2 * data.xIo.usAddr.toNat + k) =
      refreshedValue env data staged i raw (doSetOutValue env.ops data data.xIo.btInVarType raw)
      ⟨k, hk⟩ := by
  intro staged raw
  obtain ⟨raw', value, heq, rfl, rfl⟩ := masterRefresh_found env hnode s response
  rw [heq]
  simp only
  rw [writeUnion_inside k hk, vBigEdianExtData_lt (by simp only [(copiesUnion_size hcopy).1]; exact hk),
    edianSource_copy hcopy]
  congr 1
  exact Fin.ext (Nat.mod_eq_of_lt hk)

/-- Registers and stored values that are all the same byte. -/
def constState (value reg : UInt8) : RefreshState := ⟨fun _ _ => value, fun _ => reg⟩

/-- An isolated refresh of a variable that the search finds fits. -/
theorem refreshFits_of_found {vars : List ExtData} {data : ExtData} {i : ℕ}
    (hnode : coveringNode vars data.xIo.usAddr.toNat = some (data, i))
    (herror : data.xIo.btOutVarType ≠ .error)
    (h : RefreshIsolated vars i data) : RefreshFits vars data := by
  have hpos := typeRegs_pos herror
  have hle := typeRegs_le data.xIo.btInVarType
  have hquiet : ∀ (s : RefreshState) (response : ℕ → UInt8) (k : ℕ), 2 ≤ k → ∀ hk : k < 8,
      copiesUnion data.xIo.btOutVarType = true →
      (masterRefresh (quietEnv zeroOps) vars s data response).regs (2 * data.xIo.usAddr.toNat + k) =
        vBigEdianExtData data.xIo.btInVarType data.xIo.btInVarRuleType
          (readUnion (refreshRegs s response data.xIo.usAddr.toNat (typeRegs data.xIo.btInVarType)).regs
            data.xIo.usAddr.toNat) 0 ⟨k, hk⟩ := by
    intro s response k hk2 hk hcopy
    have htyped := (copiesUnion_size hcopy).2.2
    rw [masterRefresh_byte_copy hnode hcopy s response k hk, refreshedValue_quiet,
      tryRefreshAiValue_ge (by simp only; omega), doSetOutValue_ge (by simp only; omega)]
    rfl
  have hsize : typeRegs data.xIo.btInVarType ≤ typeRegs data.xIo.btOutVarType := by
    by_contra hlt
    cases hcopy : copiesUnion data.xIo.btOutVarType with
    | false =>
      have hkept := (h (quietEnv zeroOps) (constState 0 0) (fun _ => 1)).1
        (2 * data.xIo.usAddr.toNat + 2 * typeRegs data.xIo.btOutVarType)
          (by simp only [OwnsByte]; omega)
      rw [masterRefresh_byte_order hnode hcopy _ _ _ (by omega) le_rfl (by omega)] at hkept
      exact (by decide : (1 : UInt8) ≠ 0) hkept
    | true =>
      have hone := (copiesUnion_size hcopy).2.1
      have horder : copiesUnion data.xIo.btInVarType = false := by
        by_contra hcopyIn
        have := (copiesUnion_size (by simpa using hcopyIn)).2.1
        omega
      have hedian := (edianSize_eq horder).1
      have hsource := edianSource_spec data.xIo.btInVarType data.xIo.btInVarRuleType 2 (by omega)
      have hkept :=
        (h (quietEnv zeroOps) (constState 0 0) (fun _ => 1)).1 (2 * data.xIo.usAddr.toNat + 2)
        (by simp only [OwnsByte]; omega)
      rw [hquiet _ _ 2 le_rfl (by decide) hcopy, vBigEdianExtData_lt (by simp only; omega),
        readUnion] at hkept
      have hval : (Fin.ofNat 8 (edianSource data.xIo.btInVarType data.xIo.btInVarRuleType 2)).val =
          edianSource data.xIo.btInVarType data.xIo.btInVarRuleType 2 := Nat.mod_eq_of_lt (by omega)
      rw [hval, refreshRegs_lt (by omega)] at hkept
      exact (by decide : (1 : UInt8) ≠ 0) hkept
  refine ⟨hsize, fun h => absurd h herror, ?_⟩
  intro hcopy
  obtain ⟨hedian, hone, htyped⟩ := copiesUnion_size hcopy
  have hforeign : ¬ OwnsByte data (2 * data.xIo.usAddr.toNat + 2) := by
    simp only [OwnsByte]
    omega
  constructor
  · by_contra horder
    have hedianIn := (edianSize_eq (by simpa using horder)).1
    have hkept := (h (quietEnv zeroOps) (constState 0 1) (fun _ => 1)).1 _ hforeign
    rw [hquiet _ _ 2 le_rfl (by decide) hcopy, vBigEdianExtData_ge (by simp only; omega)] at hkept
    exact (by decide : (0 : UInt8) ≠ 1) hkept
  · rintro ⟨hexp, hlimit, htypedNe⟩
    have hkept := (h loudEnv (constState 1 0) (fun _ => 0)).1 _ hforeign
    rw [masterRefresh_byte_copy hnode hcopy _ _ 2 (by decide),
      refreshedValue_loud hexp hlimit htypedNe] at hkept
    exact (by decide : (1 : UInt8) ≠ 0) hkept

/-- The master refresh of a variable stays within its output range exactly when it fits there. -/
theorem masterRefresh_isolated_iff (vars : List ExtData) (i : ℕ) (data : ExtData)
    (henabled : ∀ other ∈ vars, other.bEnable = true) (hdisjoint : vars.Pairwise OutDisjoint)
    (hi : vars[i]? = some data) : RefreshIsolated vars i data ↔ RefreshFits vars data := by
  have hdata : data ∈ vars := List.mem_of_getElem? hi
  by_cases herror : data.xIo.btOutVarType = .error
  swap
  · have hregs := typeRegs_pos herror
    have hnode := coveringNode_of_disjoint hdisjoint hi (coversOut_self (henabled data hdata) hregs)
    refine ⟨refreshFits_of_found hnode herror, ?_⟩
    intro hfits env s response
    refine ⟨masterRefresh_regs_of_fits hnode hfits hregs s response, ?_⟩
    intro j hj
    obtain ⟨raw, value, heq, -, -⟩ := masterRefresh_found env hnode s response
    rw [heq]
    exact Function.update_of_ne hj _ _
  have hnone : (∀ other ∈ vars, coversOut data.xIo.usAddr.toNat other = false) →
      coveringNode vars data.xIo.usAddr.toNat = none := by
    intro hothers
    rw [coveringNode, List.find?_eq_none]
    rintro ⟨other, j⟩ hmem
    simp [hothers other (List.mem_of_getElem? (List.mem_zipIdx_iff_getElem?.mp hmem))]
  have hstaged : (∀ other ∈ vars, coversOut data.xIo.usAddr.toNat other = false) → ∀ env s response,
      masterRefresh env vars s data response =
        refreshRegs s response data.xIo.usAddr.toNat (typeRegs data.xIo.btInVarType) := by
    intro hothers env s response
    rw [masterRefresh, masterRefreshExtDataWithRegs, hnone hothers]
  constructor
  · intro h
    have hothers : ∀ other ∈ vars, coversOut data.xIo.usAddr.toNat other = false := by
      by_contra hcovered
      push Not at hcovered
      cases hnode : coveringNode vars data.xIo.usAddr.toNat with
      | none =>
        obtain ⟨other, hother, hcovers⟩ := hcovered
        obtain ⟨j, hj⟩ := List.getElem?_of_mem hother
        exact hcovers (by simpa using List.find?_eq_none.mp hnode (other, j) (List.mem_zipIdx_iff_getElem?.mpr hj))
      | some x =>
        obtain ⟨other, j⟩ := x
        have hcovers : coversOut data.xIo.usAddr.toNat other = true :=
          List.find?_some (p := fun x : ExtData × ℕ => coversOut data.xIo.usAddr.toNat x.1) hnode
        have hne : j ≠ i := by
          rintro rfl
          have hsame := coveringNode_getElem? hnode
          rw [hi] at hsame
          cases hsame
          simp [coversOut, herror, typeRegs, gVarTypeSz] at hcovers
        have hvalue : ∀ v, (masterRefresh (quietEnv zeroOps) vars (constState v 0) data
          (fun _ => 0)).values j =
            fun _ => v := fun v => (h (quietEnv zeroOps) (constState v 0) (fun _ => 0)).2 j hne
        simp only [masterRefresh, masterRefresh_quiet hnode, Function.update_self] at hvalue
        have hzero : (fun _ => 0 : VarValue) = fun _ => 1 := (hvalue 0).symm.trans (hvalue 1)
        exact absurd (congrFun hzero 0) (by decide)
    have hin : typeRegs data.xIo.btInVarType = 0 := by
      by_contra hpos
      have hkept :=
        (h (quietEnv zeroOps) (constState 0 0) (fun _ => 1)).1 (2 * data.xIo.usAddr.toNat + 0)
        (by simp [OwnsByte, herror, typeRegs, gVarTypeSz])
      rw [hstaged hothers, refreshRegs_lt (by omega)] at hkept
      exact (by decide : (1 : UInt8) ≠ 0) hkept
    have hinError : data.xIo.btInVarType = .error := by
      by_contra hne
      exact (typeRegs_pos hne).ne' hin
    exact ⟨by omega, fun _ => hothers, fun _ => ⟨by rw [hinError]; rfl, by simp [herror, typedSize]⟩⟩
  · rintro ⟨hsize, hothers, -⟩ env s response
    rw [hstaged (hothers herror)]
    refine ⟨fun b _ => refreshRegs_ge ?_, fun _ _ => rfl⟩
    rw [herror] at hsize
    have : typeRegs EVarType.error = 0 := rfl
    omega

/-- Two 16-bit variables side by side, the first one with an expression. -/
theorem masterRefresh_isolated_pair :
    RefreshIsolated [{ xIo := { usAddr := 1024, exp := .exp (some "1") } },
      { xIo := { usAddr := 1025 } }] 0
        { xIo := { usAddr := 1024, exp := .exp (some "1") } } ↔
      RefreshFits [{ xIo := { usAddr := 1024, exp := .exp (some "1") } }, { xIo := { usAddr := 1025 } }]
        { xIo := { usAddr := 1024, exp := .exp (some "1") } } :=
  masterRefresh_isolated_iff _ 0 _ (by simp)
    (List.pairwise_pair.mpr (outDisjoint_of_le (by decide))) rfl

/-- A 16-bit input refreshed into an 8-bit output overwrites the registers of its neighbour. -/
theorem masterRefresh_overwrites_neighbour :
    ¬ ∀ (vars : List ExtData) (i : ℕ) (data : ExtData), (∀ other ∈ vars, other.bEnable = true) →
      vars.Pairwise OutDisjoint → vars[i]? = some data → RefreshIsolated vars i data := by
  intro h
  have hkept :=
    (h [{ xIo := { usAddr := 1024, btOutVarType := .uint8 } }] 0 _ (by simp)
    (List.pairwise_singleton _ _)
    rfl (quietEnv zeroOps) (constState 0 1) (fun _ => 0)).1 2050 (by simp only [OwnsByte]; decide)
  exact absurd hkept (by decide)

end DasEdge.VarManage
