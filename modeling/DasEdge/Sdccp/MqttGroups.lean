import DasEdge.Library.KeyGroups
import Mathlib.Data.List.Dedup

/-!
# The groups of an MQTT report

`__mqtt_report_data_td` and the same code for the `zy` platform put the enabled variables of a
channel into groups, one for each meter. The variables are copied into `vars` and `vars_del`,
`find_key` deletes the repeated meters from `vars_del` in place, and each meter that is left
collects its variables in `s_nid`. A table is the list of its elements in use. No result means an
access that the tables do not allow, or a text that is missing or too long. The averagers are of any
type.
-/

namespace DasEdge.Sdccp

open DasEdge.Library

variable {A : Type*}

/-- The fields of a variable's upload that the report copies. -/
structure MqttUp (A : Type*) where
  bEnable : Bool
  szNid : Option (List UInt8)
  szFid : Option (List UInt8)
  xAvgUp : A
  xAvgMin : A
  xAvg5Min : A
  xAvgHour : A

/-- `eVarInfo_t`, without the flags that are set for each copy. -/
structure EVarInfo (A : Type*) where
  nid : List UInt8
  fid : List UInt8
  xAvgUp : A
  xAvgMin : A
  xAvg5Min : A
  xAvgHour : A

/-- `s_nid_t`, where the counter of the members is a `char` of `var_index` before it is `var_cnt`. -/
structure SNid (A : Type*) where
  nid : List UInt8
  varCnt : UInt8
  pvar : List (EVarInfo A)

/-- The places of `vars`, `vars_del` and `pvar`. -/
def varsSize : ℕ := 128

/-- `NID_NUMS` -/
def nidNums : ℕ := 32

/-- The bytes of `nid` and of `fid`. -/
def idSize : ℕ := 32

/-- `strcpy` into `nid` or `fid`, with the null character behind the text. -/
def strcpyId (text : Option (List UInt8)) : Option (List UInt8) :=
  text.filter fun s => s.length < idSize

/-- A variable is copied into a place of `vars`. -/
def copyVar (node : MqttUp A) : Option (EVarInfo A) :=
  (strcpyId node.szNid).bind fun nid => (strcpyId node.szFid).map fun fid => {
    nid := nid, fid := fid, xAvgUp := node.xAvgUp, xAvgMin := node.xAvgMin, xAvg5Min :=
    node.xAvg5Min, xAvgHour := node.xAvgHour }

/-- The enabled ones of the variables are copied behind those of `vars`. -/
def copyVars (vars : List (EVarInfo A)) : List (MqttUp A) → Option (List (EVarInfo A))
  | [] => some vars
  | node :: nodes =>
    if node.bEnable then
      if vars.length < varsSize then (copyVar node).bind fun var =>
        copyVars (vars ++ [var]) nodes else none
    else copyVars vars nodes

/-- `del_struct` moves the elements behind `k` down, and reads the place behind the last one. -/
def delStruct (pvars : List (EVarInfo A)) (k : ℕ) : Option (List (EVarInfo A)) :=
  if pvars.length < varsSize then some (pvars.eraseIdx k) else none

/-- An element that moves down is not lost. -/
theorem delStruct_length {pvars pvars' : List (EVarInfo A)} {k : ℕ} (hk : k < pvars.length)
    (h : delStruct pvars k = some pvars') :
    pvars'.length + 1 = pvars.length := by
  rw [delStruct, Option.ite_none_right_eq_some] at h
  rw [← Option.some.inj h.2, List.length_eraseIdx_of_lt hk]
  omega

/-- The inner loop of `find_key`, from `j` on with `flag`: the place behind a deleted element is
passed over. -/
def findKeyPass (i : ℕ) (pvars : List (EVarInfo A)) (j : ℕ) (flag : Bool) :
    Option (List (EVarInfo A) × Bool) :=
  if hj : j < pvars.length then
    if pvars[j]?.map EVarInfo.nid = pvars[i]?.map EVarInfo.nid then
      match h : delStruct pvars j with
      | none => none
      | some pvars' => findKeyPass i pvars' (j + 1) true
    else findKeyPass i pvars (j + 1) flag
  else some (pvars, flag)
termination_by pvars.length - j
decreasing_by
  · have hlength := delStruct_length hj h
    omega
  · omega

/-- A pass either keeps `flag` and the elements, or it sets `flag` and deletes some of fewer than
128 elements. -/
theorem findKeyPass_result {i j : ℕ} {pvars pvars' : List (EVarInfo A)} {flag flag' : Bool}
    (h : findKeyPass i pvars j flag = some (pvars', flag')) :
    (flag' = flag ∧ pvars' = pvars) ∨
      (flag' = true ∧ pvars'.length < pvars.length ∧ pvars.length < varsSize) := by
  fun_induction findKeyPass i pvars j flag with
  | case1 => cases h
  | case2 pvars j flag hj hrepeat deleted hdeleted ih =>
    have hlength := delStruct_length hj hdeleted
    have hsize : pvars.length < varsSize := (Option.ite_none_right_eq_some.mp hdeleted).1
    rcases ih h with ⟨hflag, hsame⟩ | ⟨hflag, hless, -⟩
    · refine .inr ⟨hflag, ?_, hsize⟩
      rw [hsame]
      omega
    · exact .inr ⟨hflag, by omega, hsize⟩
  | case3 pvars j flag hj hother ih => exact ih h
  | case4 =>
    obtain ⟨rfl, rfl⟩ := Prod.mk.inj (Option.some.inj h)
    exact .inl ⟨rfl, rfl⟩

/-- `find_key` from `i` on: after a pass that has deleted something it starts again. -/
def findKey (pvars : List (EVarInfo A)) (i : ℕ) : Option (List (EVarInfo A)) :=
  if i < pvars.length then
    match h : findKeyPass i pvars (i + 1) false with
    | none => none
    | some (pvars', true) => findKey pvars' 0
    | some (pvars', false) => findKey pvars' (i + 1)
  else some pvars
termination_by (pvars.length, pvars.length - i)
decreasing_by
  · rcases findKeyPass_result h with ⟨hflag, -⟩ | ⟨-, hless, -⟩
    · cases hflag
    · exact Prod.Lex.left _ _ hless
  · rcases findKeyPass_result h with ⟨-, rfl⟩ | ⟨hflag, -⟩
    · exact Prod.Lex.right _ (by omega)
    · cases hflag

/-- The variables of the meter `nid` are put behind those of `s_nid[j]`, with `var_index[j]` as the
next place. -/
def fillGroup (nid : List UInt8) (group : SNid A) : List (EVarInfo A) → Option (SNid A)
  | [] => some group
  | var :: vars =>
    if var.nid = nid then
      if group.varCnt.toNat < varsSize then
        fillGroup nid { nid := var.nid, varCnt := group.varCnt + 1, pvar := group.pvar ++ [var] } vars
      else none
    else fillGroup nid group vars

/-- The groups from `s_nid[j]` on, for the elements of `vars_del` from there on. -/
def fillGroups (vars : List (EVarInfo A)) (j : ℕ) : List (EVarInfo A) → Option (List (SNid A))
  | [] => some []
  | var :: varsDel =>
    if j < nidNums then do
      let group ← fillGroup var.nid { nid := [], varCnt := 0, pvar := [] } vars
      let groups ← fillGroups vars (j + 1) varsDel
      some (group :: groups)
    else none

/-- The groups that the report makes of the variables behind `*ppnode`. -/
def mqttGroups (nodes : List (MqttUp A)) : Option (List (SNid A)) := do
  let vars ← copyVars [] nodes
  let varsDel ← findKey vars 0
  fillGroups vars 0 varsDel

/-- The texts of a variable fit into its copy. -/
def MqttUp.Fits (node : MqttUp A) : Prop :=
  (∃ nid, node.szNid = some nid ∧ nid.length < idSize) ∧ ∃ fid, node.szFid = some fid ∧
    fid.length < idSize

/-- What the report has of a variable; a text that is missing is empty. -/
def MqttUp.info (node : MqttUp A) : EVarInfo A where
  nid := node.szNid.getD []
  fid := node.szFid.getD []
  xAvgUp := node.xAvgUp
  xAvgMin := node.xAvgMin
  xAvg5Min := node.xAvg5Min
  xAvgHour := node.xAvgHour

/-- The texts that `strcpy` has room for. -/
theorem strcpyId_eq_some {text : Option (List UInt8)} {s : List UInt8} :
    strcpyId text = some s ↔ text = some s ∧ s.length < idSize := by
  rw [strcpyId, Option.filter_eq_some_iff, decide_eq_true_eq]

/-- A variable is copied when its texts fit. -/
theorem copyVar_eq_some {node : MqttUp A} {var : EVarInfo A} : copyVar node = some var ↔ node.Fits ∧
    var = node.info := by
  simp only [copyVar, Option.bind_eq_some_iff, Option.map_eq_some_iff, strcpyId_eq_some, MqttUp.Fits]
  constructor
  · rintro ⟨nid, ⟨hnid, hnidSize⟩, fid, ⟨hfid, hfidSize⟩, rfl⟩
    exact ⟨⟨⟨nid, hnid, hnidSize⟩, fid, hfid, hfidSize⟩, by simp [MqttUp.info, hnid, hfid]⟩
  · rintro ⟨⟨⟨nid, hnid, hnidSize⟩, fid, hfid, hfidSize⟩, rfl⟩
    exact ⟨nid, ⟨hnid, hnidSize⟩, fid, ⟨hfid, hfidSize⟩, by simp [MqttUp.info, hnid, hfid]⟩

/-- The enabled variables are copied when their texts fit and there are places for all of them. -/
theorem copyVars_eq_some {vars out : List (EVarInfo A)} {nodes : List (MqttUp A)}
    (hvars : vars.length ≤ varsSize) :
    copyVars vars nodes = some out ↔
      (∀ node ∈ nodes.filter MqttUp.bEnable, node.Fits) ∧
        vars.length + (nodes.filter MqttUp.bEnable).length ≤ varsSize ∧
        out = vars ++ (nodes.filter MqttUp.bEnable).map MqttUp.info := by
  induction nodes generalizing vars with
  | nil => simp [copyVars, hvars, eq_comm]
  | cons node nodes ih =>
    cases henable : node.bEnable with
    | false =>
      rw [copyVars, henable, if_neg Bool.false_ne_true, ih hvars,
        List.filter_cons_of_neg (by simp [henable])]
    | true =>
      rw [copyVars, henable, if_pos rfl, List.filter_cons_of_pos henable, Option.ite_none_right_eq_some,
        Option.bind_eq_some_iff, List.length_cons, List.forall_mem_cons, List.map_cons]
      constructor
      · rintro ⟨hsize, var, hvar, hrest⟩
        obtain ⟨hfits, rfl⟩ := copyVar_eq_some.mp hvar
        obtain ⟨hall, hlength, hout⟩ :=
          (ih (by rw [List.length_append, List.length_singleton]; omega)).mp hrest
        rw [List.length_append, List.length_singleton] at hlength
        exact ⟨⟨hfits, hall⟩, by omega, by rw [hout, List.append_assoc, List.singleton_append]⟩
      · rintro ⟨⟨hfits, hall⟩, hlength, hout⟩
        have hsize : vars.length < varsSize := by omega
        have hmore : (vars ++ [node.info]).length ≤ varsSize := by
          rw [List.length_append, List.length_singleton]
          omega
        refine ⟨hsize, node.info, copyVar_eq_some.mpr ⟨hfits, rfl⟩, (ih hmore).mpr ⟨hall, ?_, ?_⟩⟩
        · rw [List.length_append, List.length_singleton]
          omega
        · rw [hout, List.append_assoc, List.singleton_append]

/-- With fewer than 128 elements `find_key` may delete any of them. -/
theorem findKeyPass_exists {i j : ℕ} {pvars : List (EVarInfo A)} {flag : Bool}
    (hsize : pvars.length < varsSize) :
    ∃ result, findKeyPass i pvars j flag = some result := by
  fun_induction findKeyPass i pvars j flag with
  | case1 pvars j flag hj hrepeat hnone => rw [delStruct, if_pos hsize] at hnone; cases hnone
  | case2 pvars j flag hj hrepeat deleted hdeleted ih =>
    have hlength := delStruct_length hj hdeleted
    exact ih (by omega)
  | case3 pvars j flag hj hother ih => exact ih hsize
  | case4 => exact ⟨_, rfl⟩

/-- A pass keeps the meters, since it deletes elements whose meter is that of element `i`. -/
theorem findKeyPass_nids {i j : ℕ} {pvars : List (EVarInfo A)} {flag : Bool}
    {result : List (EVarInfo A) × Bool} (hij : i < j)
    (h : findKeyPass i pvars j flag = some result) (nid : List UInt8) :
    nid ∈ result.1.map EVarInfo.nid ↔ nid ∈ pvars.map EVarInfo.nid := by
  fun_induction findKeyPass i pvars j flag with
  | case1 => cases h
  | case2 pvars j flag hj hrepeat deleted hdeleted ih =>
    have herase : deleted = pvars.eraseIdx j :=
      (Option.some.inj (Option.ite_none_right_eq_some.mp hdeleted).2).symm
    rw [← List.getElem?_map, ← List.getElem?_map] at hrepeat
    rw [ih (by omega) h, herase, ← List.eraseIdx_map, mem_eraseIdx_repeat (Nat.ne_of_lt hij) hrepeat]
  | case3 pvars j flag hj hother ih => exact ih (by omega) h
  | case4 =>
    rw [← Option.some.inj h]

/-- A pass without a deletion has seen that no element from `j` on has the meter of element `i`. -/
theorem findKeyPass_clean {i j b : ℕ} {pvars pvars' : List (EVarInfo A)} {flag : Bool}
    (h : findKeyPass i pvars j flag = some (pvars', false)) (hjb : j ≤ b) (hb : b < pvars.length) :
    (pvars.map EVarInfo.nid)[i]? ≠ (pvars.map EVarInfo.nid)[b]? := by
  fun_induction findKeyPass i pvars j flag with
  | case1 => cases h
  | case2 pvars j flag hj hrepeat deleted hdeleted ih =>
    rcases findKeyPass_result h with ⟨hflag, -⟩ | ⟨hflag, -⟩
    · cases hflag
    · cases hflag
  | case3 pvars j flag hj hother ih =>
    rcases Nat.eq_or_lt_of_le hjb with rfl | hlt
    · rw [List.getElem?_map, List.getElem?_map]
      exact Ne.symm hother
    · exact ih h hlt hb
  | case4 pvars j flag hj => exact absurd (Nat.lt_of_le_of_lt hjb hb) hj

/-- `find_key` ends with fewer than 128 elements. -/
theorem findKey_exists {i : ℕ} {pvars : List (EVarInfo A)} (hsize : pvars.length < varsSize) :
    ∃ varsDel, findKey pvars i = some varsDel := by
  fun_induction findKey pvars i with
  | case1 pvars i hi hnone =>
    obtain ⟨result, hresult⟩ := @findKeyPass_exists _ i (i + 1) _ false hsize
    rw [hresult] at hnone
    cases hnone
  | case2 pvars i hi pvars' hpass ih =>
    rcases findKeyPass_result hpass with ⟨hflag, -⟩ | ⟨-, hless, -⟩
    · cases hflag
    · exact ih (Nat.lt_trans hless hsize)
  | case3 pvars i hi pvars' hpass ih =>
    rcases findKeyPass_result hpass with ⟨-, rfl⟩ | ⟨hflag, -⟩
    · exact ih hsize
    · cases hflag
  | case4 => exact ⟨_, rfl⟩

/-- With 128 elements `find_key` only comes to an end when there is nothing to delete. -/
theorem findKey_same {i : ℕ} {pvars varsDel : List (EVarInfo A)} (hsize : varsSize ≤ pvars.length)
    (h : findKey pvars i = some varsDel) : varsDel = pvars := by
  fun_induction findKey pvars i with
  | case1 => cases h
  | case2 pvars i hi pvars' hpass ih =>
    rcases findKeyPass_result hpass with ⟨hflag, -⟩ | ⟨-, -, hless⟩
    · cases hflag
    · exact absurd hsize (Nat.not_le_of_lt hless)
  | case3 pvars i hi pvars' hpass ih =>
    rcases findKeyPass_result hpass with ⟨-, rfl⟩ | ⟨hflag, -⟩
    · exact ih hsize h
    · cases hflag
  | case4 => exact (Option.some.inj h).symm

/-- `find_key` keeps the meters. -/
theorem findKey_nids {i : ℕ} {pvars varsDel : List (EVarInfo A)}
    (h : findKey pvars i = some varsDel) (nid : List UInt8) :
    nid ∈ varsDel.map EVarInfo.nid ↔ nid ∈ pvars.map EVarInfo.nid := by
  fun_induction findKey pvars i with
  | case1 => cases h
  | case2 pvars i hi pvars' hpass ih =>
    exact (ih h).trans (findKeyPass_nids (Nat.lt_succ_self i) hpass nid)
  | case3 pvars i hi pvars' hpass ih =>
    exact (ih h).trans (findKeyPass_nids (Nat.lt_succ_self i) hpass nid)
  | case4 => rw [← Option.some.inj h]

/-- `find_key` leaves each meter once: at `i`, no element before has its meter again behind it. -/
theorem findKey_nodup {i : ℕ} {pvars varsDel : List (EVarInfo A)} (h : findKey pvars i = some varsDel)
    (hbefore : ∀ a b, a < i → a < b → b < pvars.length →
      (pvars.map EVarInfo.nid)[a]? ≠ (pvars.map EVarInfo.nid)[b]?) :
    (varsDel.map EVarInfo.nid).Nodup := by
  fun_induction findKey pvars i with
  | case1 => cases h
  | case2 pvars i hi pvars' hpass ih => exact ih h fun a _ ha => absurd ha (Nat.not_lt_zero a)
  | case3 pvars i hi pvars' hpass ih =>
    rcases findKeyPass_result hpass with ⟨-, rfl⟩ | ⟨hflag, -⟩
    · apply ih h
      intro a b ha hab hb
      rcases Nat.lt_succ_iff_lt_or_eq.mp ha with ha | rfl
      · exact hbefore a b ha hab hb
      · exact findKeyPass_clean hpass hab hb
    · cases hflag
  | case4 pvars i hi =>
    rw [← Option.some.inj h, List.nodup_iff_getElem?_ne_getElem?]
    intro a b hab hb
    rw [List.length_map] at hb
    exact hbefore a b (by omega) hab hb

/-- `find_key` from the first element on leaves the meters of the variables, each once. -/
theorem findKey_meters {pvars varsDel : List (EVarInfo A)} (h : findKey pvars 0 = some varsDel) :
    (varsDel.map EVarInfo.nid).Nodup ∧ varsDel.length = (pvars.map EVarInfo.nid).dedup.length := by
  have hnodup := findKey_nodup h fun a _ ha => absurd ha (Nat.not_lt_zero a)
  have hperm : (pvars.map EVarInfo.nid).dedup.Perm (varsDel.map EVarInfo.nid) := by
    rw [List.perm_ext_iff_of_nodup (List.nodup_dedup _) hnodup]
    intro nid
    rw [List.mem_dedup, findKey_nids h]
  exact ⟨hnodup, by rw [hperm.length_eq, List.length_map]⟩

/-- The group that a meter gets. -/
def meterGroup (vars : List (EVarInfo A)) (nid : List UInt8) : SNid A where
  nid := nid
  varCnt := UInt8.ofNat (vars.filter fun var => var.nid = nid).length
  pvar := vars.filter fun var => var.nid = nid

/-- A group gets the variables of its meter behind those it has, as long as there is a place for all
variables. -/
theorem fillGroup_eq {nid first : List UInt8} {seen vars : List (EVarInfo A)}
    (hsize : seen.length + vars.length ≤ varsSize)
    (hnid : first = nid ∨ nid ∈ vars.map EVarInfo.nid) :
    fillGroup nid { nid := first, varCnt := UInt8.ofNat seen.length, pvar := seen } vars =
      some {
        nid := nid
        varCnt := UInt8.ofNat (seen ++ vars.filter fun var => var.nid = nid).length
        pvar := seen ++ vars.filter fun var => var.nid = nid } := by
  induction vars generalizing first seen with
  | nil =>
    rw [List.map_nil] at hnid
    rw [fillGroup, List.filter_nil, List.append_nil, hnid.resolve_right List.not_mem_nil]
  | cons var vars ih =>
    rw [List.length_cons] at hsize
    rw [List.map_cons, List.mem_cons] at hnid
    by_cases hsame : var.nid = nid
    · have hcount : (UInt8.ofNat seen.length).toNat < varsSize := by
        rw [UInt8.toNat_ofNat']
        exact Nat.lt_of_le_of_lt (Nat.mod_le _ _) (by omega)
      have hnext : UInt8.ofNat seen.length + 1 = UInt8.ofNat (seen ++ [var]).length := by
        rw [List.length_append, List.length_singleton, UInt8.ofNat_add]
        rfl
      have hroom : (seen ++ [var]).length + vars.length ≤ varsSize := by
        rw [List.length_append, List.length_singleton]
        omega
      rw [fillGroup, if_pos hsame, if_pos hcount, hnext, ih hroom (.inl hsame),
        List.filter_cons_of_pos (by simp [hsame]), List.append_assoc, List.singleton_append]
    · have hlater : first = nid ∨ nid ∈ vars.map EVarInfo.nid := by
        rcases hnid with hfirst | heq | hmem
        · exact .inl hfirst
        · exact absurd heq.symm hsame
        · exact .inr hmem
      rw [fillGroup, if_neg hsame, ih (by omega) hlater, List.filter_cons_of_neg (by simp [hsame])]

/-- The groups are filled when there is one for each meter. -/
theorem fillGroups_eq_some {vars varsDel : List (EVarInfo A)} {groups : List (SNid A)} {j : ℕ}
    (hj : j ≤ nidNums)
    (hsize : vars.length ≤ varsSize)
    (hmem : ∀ nid ∈ varsDel.map EVarInfo.nid, nid ∈ vars.map EVarInfo.nid) :
    fillGroups vars j varsDel = some groups ↔
      j + varsDel.length ≤ nidNums ∧ groups = (varsDel.map EVarInfo.nid).map (meterGroup vars) := by
  induction varsDel generalizing j groups with
  | nil => simp [fillGroups, hj, eq_comm]
  | cons var varsDel ih =>
    rw [List.map_cons, List.forall_mem_cons] at hmem
    have hgroup : fillGroup var.nid { nid := [], varCnt := 0, pvar := [] } vars =
        some (meterGroup vars var.nid) :=
      @fillGroup_eq A var.nid [] [] vars (by rwa [List.length_nil, Nat.zero_add]) (.inr hmem.1)
    rw [fillGroups, Option.ite_none_right_eq_some, hgroup, Option.bind_eq_bind, Option.bind_some,
      Option.bind_eq_bind, Option.bind_eq_some_iff, List.length_cons, List.map_cons, List.map_cons]
    constructor
    · rintro ⟨hlt, rest, hrest, hgroups⟩
      obtain ⟨hlength, hmap⟩ := (ih hlt hmem.2).mp hrest
      exact ⟨by omega, by rw [← Option.some.inj hgroups, hmap]⟩
    · rintro ⟨hlength, hgroups⟩
      have hlt : j < nidNums := by omega
      exact ⟨hlt, _, (ih hlt hmem.2).mpr ⟨by omega, rfl⟩, by rw [hgroups]⟩

/-- The enabled ones of the variables. -/
def mqttEnabled (nodes : List (MqttUp A)) : List (MqttUp A) := nodes.filter MqttUp.bEnable

/-- Every enabled variable is in the groups once, under its own meter, and each meter has one group. -/
structure MqttGrouped (nodes : List (MqttUp A)) (groups : List (SNid A)) : Prop where
  once : (groups.flatMap SNid.pvar).Perm ((mqttEnabled nodes).map MqttUp.info)
  own : ∀ group ∈ groups, ∀ var ∈ group.pvar, var.nid = group.nid
  counted : ∀ group ∈ groups, group.varCnt.toNat = group.pvar.length
  nonempty : ∀ group ∈ groups, group.pvar ≠ []
  distinct : (groups.map SNid.nid).Nodup

/-- The enabled variables have texts that fit, are fewer than 128, and are of 32 meters at most. -/
structure MqttGroupsFit (nodes : List (MqttUp A)) : Prop where
  texts : ∀ node ∈ mqttEnabled nodes, node.Fits
  vars : (mqttEnabled nodes).length < varsSize
  meters : (((mqttEnabled nodes).map MqttUp.info).map EVarInfo.nid).dedup.length ≤ nidNums

/-- The groups of the meters hold each variable once. -/
theorem mqttGrouped_meterGroups {nodes : List (MqttUp A)} {vars : List (EVarInfo A)}
    {nids : List (List UInt8)}
    (hvars : vars = (mqttEnabled nodes).map MqttUp.info) (hsize : vars.length < varsSize)
    (hnodup : nids.Nodup)
    (hnids : ∀ nid, nid ∈ nids ↔ nid ∈ vars.map EVarInfo.nid) :
    MqttGrouped nodes (nids.map (meterGroup vars)) where
  once := by
    rw [List.flatMap_map, ← hvars]
    exact keyGroups_perm EVarInfo.nid hnodup fun var hvar => (hnids _).mpr (List.mem_map_of_mem hvar)
  own := by
    intro group hgroup var hvar
    obtain ⟨nid, -, rfl⟩ := List.mem_map.mp hgroup
    exact of_decide_eq_true (List.mem_filter.mp hvar).2
  counted := by
    intro group hgroup
    obtain ⟨nid, -, rfl⟩ := List.mem_map.mp hgroup
    have hless : (vars.filter fun var => var.nid = nid).length < 2 ^ 8 := by
      have hfilter := List.length_filter_le (fun var => decide (var.nid = nid)) vars
      rw [varsSize] at hsize
      omega
    exact Nat.mod_eq_of_lt hless
  nonempty := by
    intro group hgroup hempty
    obtain ⟨nid, hnid, rfl⟩ := List.mem_map.mp hgroup
    obtain ⟨var, hvar, hvarNid⟩ := List.mem_map.mp ((hnids nid).mp hnid)
    exact List.filter_eq_nil_iff.mp hempty var hvar (decide_eq_true hvarNid)
  distinct := by
    rw [List.map_map]
    have hid : SNid.nid ∘ meterGroup vars = id := by
      funext nid
      rfl
    rwa [hid, List.map_id]

/-- The report makes groups that hold each variable once exactly when the variables have texts that
fit, are fewer than 128, and are of 32 meters at most. -/
theorem mqttGroups_grouped_iff (nodes : List (MqttUp A)) :
    (∃ groups, mqttGroups nodes = some groups ∧ MqttGrouped nodes groups) ↔ MqttGroupsFit nodes := by
  have hcopy (vars : List (EVarInfo A)) : copyVars [] nodes = some vars ↔
      (∀ node ∈ mqttEnabled nodes, node.Fits) ∧ 0 + (mqttEnabled nodes).length ≤ varsSize ∧
        vars = [] ++ (mqttEnabled nodes).map MqttUp.info := copyVars_eq_some (Nat.zero_le _)
  simp only [Nat.zero_add, List.nil_append] at hcopy
  constructor
  · rintro ⟨groups, hgroups, -⟩
    rw [mqttGroups, Option.bind_eq_bind, Option.bind_eq_some_iff] at hgroups
    obtain ⟨vars, hvars, hgroups⟩ := hgroups
    obtain ⟨varsDel, hdel, hfill⟩ := Option.bind_eq_some_iff.mp hgroups
    obtain ⟨htexts, hsize, rfl⟩ := (hcopy vars).mp hvars
    have hnids := findKey_nids hdel
    obtain ⟨-, hmeters⟩ := findKey_meters hdel
    obtain ⟨hlength, -⟩ :=
      (fillGroups_eq_some (Nat.zero_le _) (by rwa [List.length_map]) fun nid => (hnids nid).mp).mp hfill
    rw [Nat.zero_add] at hlength
    refine ⟨htexts, Nat.lt_of_le_of_ne hsize fun hfull => ?_, by rwa [← hmeters]⟩
    -- With 128 variables nothing is deleted, so there would be as many meters.
    have hsame := findKey_same (Nat.le_of_eq (by rw [List.length_map, hfull])) hdel
    rw [hsame, List.length_map, hfull] at hlength
    exact absurd hlength (by decide)
  · intro hfit
    have hsize : ((mqttEnabled nodes).map MqttUp.info).length < varsSize := by
      rw [List.length_map]
      exact hfit.vars
    obtain ⟨varsDel, hdel⟩ := @findKey_exists _ 0 _ hsize
    have hnids := findKey_nids hdel
    obtain ⟨hnodup, hmeters⟩ := findKey_meters hdel
    have hfill :=
      (fillGroups_eq_some (Nat.zero_le _) (Nat.le_of_lt hsize) fun nid => (hnids nid).mp).mpr
      ⟨by rw [Nat.zero_add, hmeters]; exact hfit.meters, rfl⟩
    refine ⟨_, ?_, mqttGrouped_meterGroups rfl hsize hnodup hnids⟩
    rw [mqttGroups, (hcopy _).mpr ⟨hfit.texts, Nat.le_of_lt hfit.vars, rfl⟩, Option.bind_eq_bind,
      Option.bind_some, hdel,
      Option.bind_some, hfill]

/-- A variable without the name of a meter. -/
def unnamedUp : MqttUp Unit :=
  { bEnable := true, szNid := none, szFid := some [49], xAvgUp := (), xAvgMin := (), xAvg5Min := (),
    xAvgHour := () }

/-- There are no groups for a variable without the name of a meter: its text is copied from a null
pointer. -/
theorem mqttGroups_unnamed : ¬ ∃ groups, mqttGroups [unnamedUp] = some groups ∧
    MqttGrouped [unnamedUp] groups := by
  rintro ⟨groups, hgroups, -⟩
  have hnone : mqttGroups [unnamedUp] = none := rfl
  rw [hnone] at hgroups
  cases hgroups

end DasEdge.Sdccp
