import DasEdge.VarManage.GroupCreation

/-!
# Adding a device as a whole

The registers of a device are checked one after another, and each that passes is put into the list
and into the table before the next one is looked at. A request that gives up at a later register
leaves what it has created for the earlier ones.
-/

namespace DasEdge.VarManage

open DasEdge.Library

/-- A request that answers an error leaves the variables and the table as they were. -/
def AddsWhole (env : CJsonEnv) (sql : SqlName) (fuel : ℕ) (st : VarStores) (obj : CJson)
    (devType devNum proto : Int32)
    (rooms : List StoreRoom) : Prop :=
  let made := groupMade fuel st (.dev obj devType devNum proto) rooms
  made.1 ≠ 0 → ∃ st', createGroup env sql fuel st made rooms = some st' ∧
    liveInfos fuel st' = liveInfos fuel st ∧ st'.db = st.db

/-- The name of a register. -/
def regName (reg : CJson) : String := (reg.getString "name").getD ""

/-- The registers are all created: their members are in order, no two of them have one name, and
there is memory for them. -/
def RegsPass (room : ℕ) (regs : List CJson) : Prop :=
  (∀ reg ∈ regs, regTypes reg ≠ none) ∧ (regs.map regName).Nodup ∧ regs.length ≤ room

/-- The request is turned down before it creates anything, by its first register at the latest, or
all its registers are created. -/
def WholeRequest (room : ℕ) (vars : List ExtDataCfg) (obj : CJson)
    (devType devNum proto : Int32) : Prop :=
  (AddCall.json obj devType devNum proto).Refused vars ∨
    (∀ reg, (regsOf obj).head? = some reg → regTypes reg = none ∨ room = 0) ∨ RegsPass room (regsOf obj)

/-- The first loop over the registers passes registers with new names. -/
theorem regsCheck_iff {vars : List ExtDataCfg} {regs : List CJson} :
    regsCheck vars regs = none ↔ ∀ reg ∈ regs, ∃ name, reg.getString "name" = some name ∧
      (0 < name.length ∧ name.length ≤ 32) ∧
      varHasName vars name = false := by
  induction regs with
  | nil => simp [regsCheck]
  | cons reg regs ih =>
    rw [List.forall_mem_cons, ← ih, regsCheck]
    cases reg.getString "name" with
    | none => simp
    | some name =>
      simp only [Option.some.injEq, exists_eq_left']
      split_ifs with hlen hname
      · refine iff_of_false (by simp) fun h => ?_
        omega
      · refine iff_of_false (by simp) fun h => ?_
        rw [h.1.2] at hname
        cases hname
      · refine (and_iff_right ⟨?_, by simpa using hname⟩).symm
        omega

/-- A register that passes has its name. -/
theorem regName_eq {reg : CJson} {name : String} (h : reg.getString "name" = some name) :
    regName reg = name := by
  rw [regName, h]
  rfl

/-- One more variable has its name. -/
theorem varHasName_append (vars : List ExtDataCfg) (d : ExtDataCfg) (name : String) :
    varHasName (vars ++ [d]) name = false ↔ varHasName vars name = false ∧ name ≠ d.szName := by
  simp [varHasName]

section Loop

variable (group : String) (slave devType devNum proto : Int32)

/-- The variable of a register. -/
def regVar (reg : CJson) (types : EVarType × EVarType) (addr : UInt16) : ExtDataCfg :=
  { szGroup := group, szName := regName reg
    xIo := createdIo types.1 types.2 devType devNum proto (reg.getInt "op" 3) slave (reg.getInt "reg_addr" (-1)).toUInt32.toUInt16 addr }

variable {room : ℕ} {vars : List ExtDataCfg} {reg : CJson} {regs : List CJson}
  {types : EVarType × EVarType}

/-- A name that is taken ends the loop. -/
theorem regsLoop_taken (hname : varHasName vars (regName reg) = true) :
    regsLoop group slave devType devNum proto room vars (reg :: regs) = (webnetErrNameExist, []) := by
  rw [regsLoop]
  exact if_pos hname

/-- Members that are not in order end it. -/
theorem regsLoop_wrong (hname : varHasName vars (regName reg) = false) (htypes : regTypes reg = none) :
    regsLoop group slave devType devNum proto room vars (reg :: regs) = (webnetErrParam, []) := by
  rw [regsLoop, htypes]
  exact if_neg (ne_true_of_eq_false hname)

/-- So does the memory. -/
theorem regsLoop_full (hname : varHasName vars (regName reg) = false)
    (htypes : regTypes reg = some types) :
    regsLoop group slave devType devNum proto 0 vars (reg :: regs) = (webnetErrNoMem, []) := by
  rw [regsLoop, htypes]
  exact if_neg (ne_true_of_eq_false hname)

/-- Any other register is created. -/
theorem regsLoop_next (hname : varHasName vars (regName reg) = false)
    (htypes : regTypes reg = some types) :
    regsLoop group slave devType devNum proto (room + 1) vars (reg :: regs) =
      (let data := regVar group slave devType devNum proto reg types (varGetNextAddr vars)
       let rest := regsLoop group slave devType devNum proto room (vars ++ [data]) regs
       (rest.1, data :: rest.2)) := by
  rw [regsLoop, htypes]
  exact if_neg (ne_true_of_eq_false hname)

/-- The loop over the registers gets through if and only if no register has a name that is taken and
they pass. -/
theorem regsLoop_done_iff (room : ℕ) (vars : List ExtDataCfg) (regs : List CJson) :
    (regsLoop group slave devType devNum proto room vars regs).1 = 0 ↔
      (∀ reg ∈ regs, varHasName vars (regName reg) = false) ∧ RegsPass room regs := by
  induction regs generalizing room vars with
  | nil => simp [regsLoop, RegsPass]
  | cons reg regs ih =>
    rw [RegsPass, List.forall_mem_cons, List.forall_mem_cons, List.map_cons, List.nodup_cons,
      List.length_cons]
    cases hname : varHasName vars (regName reg) with
    | true =>
      rw [regsLoop_taken group slave devType devNum proto hname]
      exact iff_of_false (show webnetErrNameExist ≠ 0 by decide) (by simp)
    | false =>
      cases htypes : regTypes reg with
      | none =>
        rw [regsLoop_wrong group slave devType devNum proto hname htypes]
        exact iff_of_false (show webnetErrParam ≠ 0 by decide) (by simp)
      | some types =>
        cases room with
        | zero =>
          rw [regsLoop_full group slave devType devNum proto hname htypes]
          exact iff_of_false (show webnetErrNoMem ≠ 0 by decide) (by simp)
        | succ room =>
          rw [regsLoop_next group slave devType devNum proto hname htypes, ih, RegsPass,
            Nat.add_le_add_iff_right]
          simp only [varHasName_append, regVar, List.mem_map, not_exists, not_and, ne_eq,
            reduceCtorEq, not_false_eq_true, true_and]
          constructor
          · rintro ⟨hnames, hpass, hnodup, hlen⟩
            exact ⟨fun r hr => (hnames r hr).1, hpass, ⟨fun r hr => (hnames r hr).2, hnodup⟩, hlen⟩
          · rintro ⟨hnames, hpass, ⟨hnew, hnodup⟩, hlen⟩
            exact ⟨fun r hr => ⟨hnames r hr, hnew r hr⟩, hpass, hnodup, hlen⟩

/-- The loop creates nothing if and only if it gives up at the first register. -/
theorem regsLoop_nil_iff (room : ℕ) (regs : List CJson)
    (hname : varHasName vars (regName reg) = false) :
    (regsLoop group slave devType devNum proto room vars (reg :: regs)).2 = [] ↔
      regTypes reg = none ∨ room = 0 := by
  cases htypes : regTypes reg with
  | none =>
    rw [regsLoop_wrong group slave devType devNum proto hname htypes]
    exact iff_of_true rfl (.inl rfl)
  | some types =>
    cases room with
    | zero =>
      rw [regsLoop_full group slave devType devNum proto hname htypes]
      exact iff_of_true rfl (.inr rfl)
    | succ room =>
      rw [regsLoop_next group slave devType devNum proto hname htypes]
      exact iff_of_false (List.cons_ne_nil _ _) (by simp)

end Loop

/-- A request that is not refused has registers, and their names are not taken. -/
theorem regs_of_not_refused {vars : List ExtDataCfg} {obj : CJson} {devType devNum proto : Int32}
    (h : ¬ (AddCall.json obj devType devNum proto).Refused vars) :
    regsOf obj ≠ [] ∧ ∀ reg ∈ regsOf obj, varHasName vars (regName reg) = false := by
  simp only [AddCall.Refused, not_or, not_not] at h
  refine ⟨h.2.2.1, fun reg hreg => ?_⟩
  obtain ⟨name, hname, -, hfree⟩ := regsCheck_iff.mp h.2.2.2.1 reg hreg
  rwa [regName_eq hname]

/-- A request that answers an error leaves everything as it was if and only if it is turned down
before it creates a variable, or all its registers are created. -/
theorem addsWhole_iff {env : CJsonEnv} {sql : SqlName} {fuel : ℕ} {st : VarStores} {chain : List ℕ}
    {obj : CJson}
    {devType devNum proto : Int32} {rooms : List StoreRoom} (hheld : VarsHeld st chain)
    (hfuel : chain.length + rooms.length < fuel)
    (hfresh : FreshRooms st rooms) :
    AddsWhole env sql fuel st obj devType devNum proto rooms ↔
      WholeRequest rooms.length ((liveInfos fuel st).map groupView) obj devType devNum proto := by
  set vars := (liveInfos fuel st).map groupView with hvars
  have hmade : groupMade fuel st (.dev obj devType devNum proto) rooms =
      varmanageAddDevWithJson rooms.length vars obj devType devNum proto :=
    rfl
  rw [AddsWhole, hmade, WholeRequest]
  have hleaves {rc : ℤ} (hrc : rc ≠ 0) : createGroup env sql fuel st (rc, []) rooms = some st := by
    rw [createGroup, List.zip_nil_left, runBlocking, Option.bind_some, if_neg hrc]
  by_cases hrefused : (AddCall.json obj devType devNum proto).Refused vars
  · refine iff_of_true (fun hrc => ⟨st, ?_, rfl, rfl⟩) (.inl hrefused)
    have hnil : (varmanageAddDevWithJson rooms.length vars obj devType devNum proto).2 = [] :=
      (AddCall.run_refused rooms.length hrefused).2
    rw [← hleaves hrc, ← hnil]
  · obtain ⟨group, -, hloop⟩ := varmanageAddDevWithJson_loop rooms.length hrefused
    rw [or_iff_right hrefused, hloop]
    obtain ⟨hsome, hnames⟩ := regs_of_not_refused hrefused
    have hdone :=
      regsLoop_done_iff group (obj.getInt "slave" (-1)) devType devNum proto rooms.length vars
      (regsOf obj)
    rw [and_iff_right hnames] at hdone
    rw [← hdone]
    obtain ⟨reg, regs, hregs⟩ := List.exists_cons_of_ne_nil hsome
    have hnil := regsLoop_nil_iff group (obj.getInt "slave" (-1)) devType devNum proto rooms.length regs
      (hnames reg (hregs ▸ List.mem_cons_self))
    rw [hregs] at hdone ⊢
    simp only [List.head?_cons, Option.some.injEq, forall_eq']
    rw [← hnil]
    have hlen :=
      regsLoop_length_le group (obj.getInt "slave" (-1)) devType devNum proto rooms.length vars
      (reg :: regs)
    generalize regsLoop group (obj.getInt "slave" (-1)) devType devNum proto rooms.length vars
      (reg :: regs) = made at hlen ⊢
    obtain ⟨rc, created⟩ := made
    by_cases hrc : rc = 0
    · exact iff_of_true (fun hne => absurd hrc hne) (.inr hrc)
    · rw [or_iff_left hrc]
      by_cases hcreated : created = []
      · subst hcreated
        exact iff_of_true (fun _ => ⟨st, hleaves hrc, rfl, rfl⟩) rfl
      · refine iff_of_false (fun hwhole => ?_) hcreated
        obtain ⟨st₁, news, hcreate, hheld₁, -, -, hnews, hinfos⟩ :=
          @createGroup_held env sql fuel st chain (rc, created) rooms hheld hfuel hfresh hlen
        obtain ⟨st', hcreate', hlive, -⟩ := hwhole hrc
        rw [hcreate, if_neg hrc, Option.some_inj] at hcreate'
        subst hcreate'
        have hroom : chain.length ≤ fuel := by omega
        rw [hheld₁.liveInfos_eq (by rw [List.length_append]; omega), hinfos,
          hheld.liveInfos_eq hroom, List.append_right_eq_self,
          List.map_eq_nil_iff] at hlive
        exact hcreated hlive

/-- A device of some registers. -/
def deviceOf (regs : List CJson) : CJson :=
  .object [("group", .string "g"), ("slave", .number 1), ("regs", .array regs)]

/-- A register that is read by a function code. -/
def regOf (name : String) (op : Int32) : CJson :=
  .object [("name", .string name), ("op", .number op), ("in_type", .string "INT16"),
    ("reg_addr", .number 10)]

/-- No nodes are held. -/
theorem emptyStores_held : VarsHeld emptyStores [] := emptyStores_listed.sortable.toVarsHeld

/-- Two nodes that are not in use. -/
theorem emptyStores_fresh : FreshRooms emptyStores [plainRoom 1, plainRoom 2] :=
  ⟨by decide, fun _ _ => rfl⟩

/-- A device whose first register has a wrong function code. -/
theorem addsWhole_first :
    AddsWhole (plainEnv .null) plainSql 3 emptyStores (deviceOf [regOf "a" 5, regOf "b" 3]) 0 0 0
    [plainRoom 1, plainRoom 2] :=
  (addsWhole_iff emptyStores_held (by decide) emptyStores_fresh).mpr (.inr (.inl fun reg hreg =>
    .inl (by rw [← Option.some.inj hreg]; decide)))

/-- A device whose second register has a wrong function code leaves a variable of its first one. -/
theorem not_addsWhole_second :
    ¬ ∀ (env : CJsonEnv) (sql : SqlName) (fuel : ℕ) (st : VarStores) (chain : List ℕ) (obj : CJson)
    (devType devNum proto : Int32) (rooms : List StoreRoom), VarsHeld st chain →
      chain.length + rooms.length < fuel →
    FreshRooms st rooms → AddsWhole env sql fuel st obj devType devNum proto rooms := by
  intro h
  obtain ⟨st', hcreate, hlive, -⟩ :=
    h (plainEnv .null) plainSql 3 emptyStores [] (deviceOf [regOf "a" 3, regOf "b" 5]) 0 0 0
    [plainRoom 1, plainRoom 2] emptyStores_held (by decide) emptyStores_fresh (by decide)
  have hcount := congrArg (Option.map fun st => (liveInfos 3 st).length) hcreate
  rw [Option.map_some, hlive] at hcount
  exact absurd hcount (by decide)

end DasEdge.VarManage
