import DasEdge.VarManage.AddDevWhole

/-!
# The names of variables that are created together

The calls that create a group look for a set of names in the list, and print the names that they
store a second time. Looked for are 31 characters of a name, stored are 32. A name of 32 characters
is therefore looked for without its number, longer ones are stored without it, and the eight inputs
or outputs are numbered from 0 where they are looked for from 1. A device brings its own names,
which are looked for as they are stored.
-/

namespace DasEdge.VarManage

open DasEdge.Library

/-- The names in the list are pairwise distinct. -/
def NamesDistinct (fuel : ℕ) (st : VarStores) : Prop := ((liveInfos fuel st).map (·.szName)).Nodup

/-- What `__var_add_ai` puts behind the prefix. -/
def aiTail (n : ℕ) : String := "_AI_" ++ toString (n + 1)

/-- What the first loop of `__var_add_ttl` puts behind the prefix. -/
def ttlCheckedTail (devType1 : Int32) (n : ℕ) : String :=
  if devType1 = 0 then if n < 4 then "_TTL_DI_" ++ toString (n + 1) else "_TTL_DO_" ++ toString (n - 3)
  else if devType1 = 1 then if n < 4 then "_TTL_DO_" ++ toString (n + 1)
    else "_TTL_DI_" ++ toString (n - 3)
  else if devType1 = 2 then "_TTL_DI_" ++ toString (n + 1)
  else "_TTL_DO_" ++ toString (n + 1)

/-- What its second loop puts there. -/
def ttlTail (devType1 : Int32) (n : ℕ) : String :=
  if devType1 = 0 then if n < 4 then "_TTL_DI_" ++ toString (n + 1) else "_TTL_DO_" ++ toString (n - 3)
  else if devType1 = 1 then if n < 4 then "_TTL_DO_" ++ toString (n + 1)
    else "_TTL_DI_" ++ toString (n - 3)
  else if devType1 = 2 then "_TTL_DI_" ++ toString n
  else "_TTL_DO_" ++ toString n

/-- The call has names to create that are new: it is refused or has no memory, the names are short
enough to be looked for as they are stored, or those it comes to store are not in the list, and they
differ in their numbers or there is only one of them. -/
def NewNames (room : ℕ) (vars : List ExtDataCfg) : GroupCall → Prop
  | .ai id pre slaveAddr devType devNum =>
    (AddCall.ai id pre slaveAddr devType devNum).Refused vars ∨ room = 0 ∨ pre.length ≤ 26 ∨
      ((pre.length = 27 ∨ room = 1) ∧
      ∀ n < min room 8, varHasName vars (snprintf 33 (pre ++ aiTail n)) = false)
  | .ttl devType1 id pre slaveAddr devType devNum =>
    (AddCall.ttl devType1 id pre slaveAddr devType devNum).Refused vars ∨ room = 0 ∨
      (pre.length ≤ 22 ∧
      (devType1 = 2 ∨ devType1 = 3 → varHasName vars (pre ++ ttlTail devType1 0) = false)) ∨
      ((pre.length = 23 ∨ room = 1) ∧
      ∀ n < min room 8, varHasName vars (snprintf 33 (pre ++ ttlTail devType1 n)) = false)
  | .dev .. => True

/-- A text that fits into the buffer is kept. -/
theorem snprintf_of_lt {size : ℕ} {text : String} (h : text.length < size) :
    snprintf size text = text := by
  rw [snprintf, List.take_of_length_le, String.ofList_toList]
  rw [String.length_toList]
  omega

/-- Texts that start alike differ in their ends. -/
theorem append_left_inj_text {pre s t : String} (h : pre ++ s = pre ++ t) : s = t := by
  have hlists := congrArg String.toList h
  rw [String.toList_append, String.toList_append] at hlists
  exact String.toList_injective (List.append_cancel_left hlists)

/-- The tails of a call have one length and are distinct. -/
structure Tails (tail : ℕ → String) (width : ℕ) : Prop where
  length : ∀ n < 8, (tail n).length = width
  distinct : ∀ m < 8, ∀ n < 8, tail m = tail n → m = n

theorem aiTail_tails : Tails aiTail 5 := ⟨by decide, by decide⟩

/-- The types other than the first three have the tails of the last one. -/
theorem ttlTail_tails (devType1 : Int32) : Tails (ttlTail devType1) 9 := by
  by_cases h₀ : devType1 = 0
  · subst h₀
    exact ⟨by decide, by decide⟩
  · by_cases h₁ : devType1 = 1
    · subst h₁
      exact ⟨by decide, by decide⟩
    · by_cases h₂ : devType1 = 2
      · subst h₂
        exact ⟨by decide, by decide⟩
      · have htail : ttlTail devType1 = ttlTail 3 := by
          funext n
          simp [ttlTail, h₀, h₁, h₂]
        rw [htail]
        exact ⟨by decide, by decide⟩

/-- Names that fit into the buffer are distinct, and so is one alone. -/
theorem Tails.nodup {tail : ℕ → String} {width : ℕ} (htails : Tails tail width)
    {pre : String} {room : ℕ}
    (h : pre.length + width ≤ 32 ∨ room ≤ 1) :
    (((List.range 8).take room).map fun n => snprintf 33 (pre ++ tail n)).Nodup := by
  rcases h with hfit | hroom
  · refine List.Nodup.map_on (fun m hm n hn heq => ?_)
      (List.nodup_range.sublist (List.take_sublist _ _))
    have hm := List.mem_range.mp (List.mem_of_mem_take hm)
    have hn := List.mem_range.mp (List.mem_of_mem_take hn)
    have hlt {n : ℕ} (hn : n < 8) : (pre ++ tail n).length < 33 := by
      rw [String.length_append, htails.length n hn]
      omega
    rw [snprintf_of_lt (hlt hm), snprintf_of_lt (hlt hn)] at heq
    exact htails.distinct m hm n hn (append_left_inj_text heq)
  · match room, hroom with
    | 0, _ => exact List.nodup_nil
    | 1, _ => exact List.nodup_singleton _

/-- The loop over a group gives its variables their names in turn. -/
theorem createLoop_names {make : ℕ → UInt16 → UInt16 → Option ExtDataCfg} {name : ℕ → String}
    (hmake : ∀ n extAddr addr, ∃ d, make n extAddr addr = some d ∧ d.szName = name n) (sz : UInt16)
    (room : ℕ) (ns : List ℕ)
    (extAddr addr : UInt16) :
    (createLoop make sz room ns extAddr addr).2.map (·.szName) = (ns.take room).map name := by
  induction ns generalizing room extAddr addr with
  | nil => rw [createLoop, List.take_nil, List.map_nil, List.map_nil]
  | cons n ns ih =>
    cases room with
    | zero => rw [createLoop, List.take_zero, List.map_nil, List.map_nil]
    | succ room =>
      obtain ⟨d, hd, hname⟩ := hmake n extAddr addr
      rw [createLoop, hd, List.take_succ_cons, List.map_cons, List.map_cons, hname]
      exact congrArg (name n :: ·) (ih ..)

/-- Names that are created are new: they are pairwise distinct, and none is in the list. -/
def FreshNames (vars : List ExtDataCfg) (names : List String) : Prop :=
  names.Nodup ∧ ∀ name ∈ names, varHasName vars name = false

/-- No names are fresh. -/
theorem freshNames_nil (vars : List ExtDataCfg) : FreshNames vars [] :=
  ⟨List.nodup_nil, fun _ hname => absurd hname List.not_mem_nil⟩

/-- Names with a prefix are new if they are distinct and each of them is. -/
theorem Tails.fresh {tail : ℕ → String} {width : ℕ} (htails : Tails tail width)
    {vars : List ExtDataCfg} {pre : String} {room : ℕ}
    (h : pre.length + width ≤ 32 ∨ room ≤ 1)
    (hnew : ∀ n < min room 8, varHasName vars (snprintf 33 (pre ++ tail n)) = false) :
    FreshNames vars (((List.range 8).take room).map fun n => snprintf 33 (pre ++ tail n)) := by
  refine ⟨htails.nodup h, List.forall_mem_map.mpr fun n hn => hnew n ?_⟩
  rwa [List.take_range, List.mem_range] at hn

/-- The names of analog inputs are new. -/
theorem varAddAi_fresh {room : ℕ} {vars : List ExtDataCfg} {id pre : String}
    {slaveAddr devType devNum : Int32}
    (hnew : NewNames room vars (.ai id pre slaveAddr devType devNum)) :
    FreshNames vars ((varAddAi room vars id pre slaveAddr devType devNum).2.map (·.szName)) := by
  have hnil (h : (varAddAi room vars id pre slaveAddr devType devNum).2 = []) :
      FreshNames vars ((varAddAi room vars id pre slaveAddr devType devNum).2.map (·.szName)) := by
    rw [h]
    exact freshNames_nil vars
  by_cases hrefused : (AddCall.ai id pre slaveAddr devType devNum).Refused vars
  · exact hnil (AddCall.run_refused room hrefused).2
  · rw [NewNames, or_iff_right hrefused] at hnew
    obtain ⟨hgroup, hchecked⟩ := not_or.mp hrefused
    have hnames : (varAddAi room vars id pre slaveAddr devType devNum).2.map (·.szName) =
        ((List.range 8).take room).map fun n => snprintf 33 (pre ++ aiTail n) := by
      rw [varAddAi, if_neg hgroup, if_neg]
      · exact createLoop_names (fun n extAddr addr =>
          ⟨_, rfl, by rw [aiVar, String.append_assoc]; rfl⟩) _ _ _ _ _
      · rw [List.any_eq_true]
        rintro ⟨n, hn, hname⟩
        exact hchecked ⟨n, List.mem_range.mp hn, hname⟩
    rw [hnames]
    rcases hnew with hroom | hshort | ⟨hlong, hnew⟩
    · subst hroom
      exact freshNames_nil vars
    · refine aiTail_tails.fresh (.inl (by omega)) fun n hn => ?_
      have hn : n < 8 := hn.trans_le (Nat.min_le_right _ _)
      have hlen : (pre ++ aiTail n).length = pre.length + 5 := by
        rw [String.length_append, aiTail_tails.length n hn]
      have hfree : ¬ varHasName vars (snprintf 32 (pre ++ "_AI_" ++ toString (n + 1))) = true :=
        fun hname => hchecked ⟨n, hn, hname⟩
      rw [String.append_assoc] at hfree
      change ¬ varHasName vars (snprintf 32 (pre ++ aiTail n)) = true at hfree
      rw [snprintf_of_lt (by omega)] at hfree ⊢
      exact eq_false_of_ne_true hfree
    · exact aiTail_tails.fresh (hlong.imp (by omega) (by omega)) hnew

/-- The first loop of `__var_add_ttl` passes names that are not in the list. -/
theorem ttlCheck_none {vars : List ExtDataCfg} {devType1 : Int32} {pre : String} {ns : List ℕ}
    (h : ttlCheck vars devType1 pre ns = none) :
    ∀ n ∈ ns, ∃ name, ttlCheckedName devType1 pre n = some name ∧ varHasName vars name = false := by
  induction ns with
  | nil => nofun
  | cons n ns ih =>
    rw [ttlCheck] at h
    cases hname : ttlCheckedName devType1 pre n with
    | none =>
      rw [hname] at h
      cases h
    | some name =>
      rw [hname] at h
      simp only at h
      split_ifs at h with htaken
      exact List.forall_mem_cons.mpr ⟨⟨name, hname, eq_false_of_ne_true htaken⟩, ih h⟩

/-- The names that the first loop looks for. -/
theorem ttlCheckedName_eq {devType1 : Int32} {pre : String} {n : ℕ} {name : String}
    (h : ttlCheckedName devType1 pre n = some name) :
    (devType1 = 0 ∨ devType1 = 1 ∨ devType1 = 2 ∨ devType1 = 3) ∧
      name = snprintf 32 (pre ++ ttlCheckedTail devType1 n) := by
  simp only [ttlCheckedName, String.append_assoc] at h
  rw [ttlCheckedTail]
  split_ifs at h ⊢ <;> simp_all

/-- The names that the second loop stores. -/
theorem ttlCreatedName_eq {devType1 : Int32}
    (hvalid : devType1 = 0 ∨ devType1 = 1 ∨ devType1 = 2 ∨ devType1 = 3) (pre : String) (n : ℕ) :
    ∃ attr, ttlCreatedName devType1 pre n = some (attr, snprintf 33 (pre ++ ttlTail devType1 n)) := by
  simp only [ttlCreatedName, ttlTail, String.append_assoc]
  split_ifs <;> simp_all

/-- The names of digital inputs and outputs are new. -/
theorem varAddTtl_fresh {room : ℕ} {vars : List ExtDataCfg} {devType1 : Int32} {id pre : String}
    {slaveAddr devType devNum : Int32}
    (hnew : NewNames room vars (.ttl devType1 id pre slaveAddr devType devNum)) :
    FreshNames vars ((varAddTtl room vars devType1 id pre slaveAddr devType devNum).2.map
      (·.szName)) := by
  by_cases hrefused : (AddCall.ttl devType1 id pre slaveAddr devType devNum).Refused vars
  · have hnil : (varAddTtl room vars devType1 id pre slaveAddr devType devNum).2 = [] :=
      (AddCall.run_refused room hrefused).2
    rw [hnil]
    exact freshNames_nil vars
  · rw [NewNames, or_iff_right hrefused] at hnew
    obtain ⟨hgroup, hcheck⟩ := not_or.mp hrefused
    have hcheck := not_not.mp hcheck
    have hchecked : ∀ n < 8, varHasName vars (snprintf 32 (pre ++ ttlCheckedTail devType1 n)) =
        false := by
      intro n hn
      obtain ⟨name, hname, hfree⟩ := ttlCheck_none hcheck n (List.mem_range.mpr hn)
      rwa [(ttlCheckedName_eq hname).2] at hfree
    obtain ⟨_, hfirst, -⟩ := ttlCheck_none hcheck 0 (by decide)
    obtain ⟨hvalid, -⟩ := ttlCheckedName_eq hfirst
    have hnames : (varAddTtl room vars devType1 id pre slaveAddr devType devNum).2.map (·.szName) =
        ((List.range 8).take room).map fun n => snprintf 33 (pre ++ ttlTail devType1 n) := by
      rw [varAddTtl, if_neg hgroup, hcheck]
      refine createLoop_names (fun n extAddr addr => ?_) _ _ _ _ _
      obtain ⟨attr, hname⟩ := ttlCreatedName_eq hvalid pre n
      exact ⟨_, by rw [ttlVar, hname]; rfl, rfl⟩
    rw [hnames]
    rcases hnew with hroom | ⟨hshort, hzero⟩ | ⟨hlong, hnew⟩
    · subst hroom
      exact freshNames_nil vars
    · refine (ttlTail_tails devType1).fresh (.inl (by omega)) fun n hn => ?_
      have hn : n < 8 := hn.trans_le (Nat.min_le_right _ _)
      have hlen : (pre ++ ttlTail devType1 n).length = pre.length + 9 := by
        rw [String.length_append, (ttlTail_tails devType1).length n hn]
      -- the name is looked for in the same round, or in the one before where the numbers start at 0
      obtain hfirst | ⟨m, hm, htail⟩ : ((devType1 = 2 ∨ devType1 = 3) ∧ n = 0) ∨
          ∃ m < 8, ttlCheckedTail devType1 m = ttlTail devType1 n := by
        rcases hvalid with rfl | rfl | rfl | rfl
        · exact .inr ⟨n, hn, rfl⟩
        · exact .inr ⟨n, hn, rfl⟩
        · cases n with
          | zero => exact .inl ⟨.inl rfl, rfl⟩
          | succ n => exact .inr ⟨n, by omega, rfl⟩
        · cases n with
          | zero => exact .inl ⟨.inr rfl, rfl⟩
          | succ n => exact .inr ⟨n, by omega, rfl⟩
      · obtain ⟨htype, rfl⟩ := hfirst
        rw [snprintf_of_lt (by omega)]
        exact hzero htype
      · have hfree := hchecked m hm
        rw [htail, snprintf_of_lt (by omega)] at hfree
        rwa [snprintf_of_lt (by omega)]
    · exact (ttlTail_tails devType1).fresh (hlong.imp (by omega) (by omega)) hnew

/-- The names of the registers of a device are looked for right before they are stored. -/
theorem regsLoop_fresh (group : String) (slave devType devNum proto : Int32) (room : ℕ)
    (vars : List ExtDataCfg) (regs : List CJson) :
    FreshNames vars ((regsLoop group slave devType devNum proto room vars regs).2.map (·.szName)) := by
  induction regs generalizing room vars with
  | nil =>
    rw [regsLoop]
    exact freshNames_nil _
  | cons reg regs ih =>
    cases hname : varHasName vars (regName reg) with
    | true =>
      rw [regsLoop_taken group slave devType devNum proto hname]
      exact freshNames_nil _
    | false =>
      cases htypes : regTypes reg with
      | none =>
        rw [regsLoop_wrong group slave devType devNum proto hname htypes]
        exact freshNames_nil _
      | some types =>
        cases room with
        | zero =>
          rw [regsLoop_full group slave devType devNum proto hname htypes]
          exact freshNames_nil _
        | succ room =>
          rw [regsLoop_next group slave devType devNum proto hname htypes]
          obtain ⟨hnodup, hfree⟩ :=
            ih room (vars ++ [regVar group slave devType devNum proto reg types
            (varGetNextAddr vars)])
          have hfree := fun name hmem => (varHasName_append vars _ name).mp (hfree name hmem)
          exact ⟨List.nodup_cons.mpr ⟨fun hmem => (hfree _ hmem).2 rfl, hnodup⟩,
            List.forall_mem_cons.mpr ⟨hname, fun name hmem => (hfree name hmem).1⟩⟩

/-- The names that a call creates are new. -/
theorem GroupCall.made_fresh {room : ℕ} {vars : List ExtDataCfg} {call : GroupCall}
    (hnew : NewNames room vars call) :
    FreshNames vars ((call.made room vars).2.map (·.szName)) := by
  cases call with
  | ai id pre slaveAddr devType devNum => exact varAddAi_fresh hnew
  | ttl devType1 id pre slaveAddr devType devNum => exact varAddTtl_fresh hnew
  | dev obj devType devNum proto =>
    rw [made]
    by_cases hrefused : (AddCall.json obj devType devNum proto).Refused vars
    · have hnil : (varmanageAddDevWithJson room vars obj devType devNum proto).2 = [] :=
        (AddCall.run_refused room hrefused).2
      rw [hnil]
      exact freshNames_nil vars
    · obtain ⟨group, -, hloop⟩ := varmanageAddDevWithJson_loop room hrefused
      rw [hloop]
      exact regsLoop_fresh ..

instance (st : VarStores) (rooms : List StoreRoom) : Decidable (FreshRooms st rooms) :=
  inferInstanceAs (Decidable (_ ∧ _))

/-- One call that creates a group, with the memory that it gets. -/
def addStep (env : CJsonEnv) (sql : SqlName) (fuel : ℕ) (st : VarStores)
    (call : GroupCall × List StoreRoom) : Option (Unit × VarStores) :=
  varRequest env sql fuel st (.add call.1 call.2)

/-- The names that a call creates are new in the list. -/
def MeetsNames (fuel : ℕ) (st : VarStores) (call : GroupCall × List StoreRoom) : Prop :=
  NewNames call.2.length ((liveInfos fuel st).map groupView) call.1

section Run

variable {env : CJsonEnv} {sql : SqlName} {fuel : ℕ} {st : VarStores} {chain : List ℕ}

/-- Distinct names, by the nodes of the list. -/
theorem namesDistinct_iff (hheld : VarsHeld st chain) (hfuel : chain.length ≤ fuel) :
    NamesDistinct fuel st ↔ ((chainInfos st chain).map (·.szName)).Nodup := by
  rw [NamesDistinct, hheld.liveInfos_eq hfuel]

/-- New names of created variables and distinct names of others are distinct. -/
theorem FreshNames.nodup {infos : List ExtDataInfo} {made : List ExtDataCfg}
    (hfresh : FreshNames (infos.map groupView) (made.map (·.szName)))
    (hnodup : (infos.map (·.szName)).Nodup) :
    ((infos ++ made.map createdInfo).map (·.szName)).Nodup := by
  have hcreated : (made.map createdInfo).map (·.szName) = made.map (·.szName) := by
    rw [List.map_map]
    rfl
  rw [List.map_append, hcreated, List.nodup_append]
  refine ⟨hnodup, hfresh.1, fun name hname other hother heq => ?_⟩
  subst heq
  obtain ⟨info, hinfo, rfl⟩ := List.mem_map.mp hname
  have hfree := hfresh.2 _ hother
  rw [varHasName, List.any_eq_false] at hfree
  exact hfree (groupView info) (List.mem_map_of_mem hinfo) (decide_eq_true rfl)

/-- One call whose names are new keeps the names distinct. -/
theorem addStep_keeps {call : GroupCall × List StoreRoom} (hsortable : VarsSortable st chain)
    (hnames : NamesDistinct fuel st)
    (hfuel : chain.length + call.2.length < fuel) (hfresh : FreshRooms st call.2)
    (hmeets : MeetsNames fuel st call) :
    ∃ st' chain', addStep env sql fuel st call = some ((), st') ∧ VarsSortable st' chain' ∧
      NamesDistinct fuel st' ∧
      chain'.length ≤ chain.length + call.2.length := by
  have hroom : chain.length ≤ fuel := by omega
  have hlive := hsortable.liveInfos_eq hroom
  rw [namesDistinct_iff hsortable.toVarsHeld hroom] at hnames
  set made := groupMade fuel st call.1 call.2 with hmade
  have hlen : made.2.length ≤ call.2.length := GroupCall.made_length_le ..
  obtain ⟨st₁, news, hcreate, -, hsortable₁, -, hnews, hinfos⟩ :=
    @createGroup_held env sql fuel st chain made call.2 hsortable.toVarsHeld hfuel hfresh hlen
  have hsortable₁ := hsortable₁ hsortable
  have hnames₁ : ((chainInfos st₁ (chain ++ news)).map (·.szName)).Nodup := by
    have hnew : FreshNames ((liveInfos fuel st).map groupView) (made.2.map (·.szName)) :=
      GroupCall.made_fresh hmeets
    rw [hlive] at hnew
    rw [hinfos]
    exact hnew.nodup hnames
  have hlen₁ : (chain ++ news).length ≤ chain.length + call.2.length := by
    rw [List.length_append]
    omega
  have hstep {st' : VarStores} (hcreate : createGroup env sql fuel st made call.2 = some st') :
      addStep env sql fuel st call = some ((), st') := by
    rw [addStep, varRequest, ← hmade, hcreate]
    rfl
  by_cases hrc : made.1 = 0
  · rw [if_pos hrc] at hcreate
    obtain ⟨st', final, hsort, hsortable', hsubperm, hinfo, -⟩ :=
      @sortVars_sortable fuel st₁ (chain ++ news) [] (by rwa [List.append_nil])
        (by rw [List.append_nil]; omega) ⟨fun _ h => absurd h List.not_mem_nil, List.Pairwise.nil⟩
    rw [List.append_nil] at hsortable'
    have hfinal := hsubperm.length_le
    refine ⟨st', final, hstep (hcreate.trans hsort), hsortable', ?_, by omega⟩
    rw [namesDistinct_iff hsortable'.toVarsHeld (by omega), chainInfos, hinfo]
    obtain ⟨kept, hperm, hsub⟩ := hsubperm
    exact ((hperm.map st₁.info).map (·.szName)).nodup_iff.mp
      (hnames₁.sublist ((hsub.map st₁.info).map (·.szName)))
  · rw [if_neg hrc] at hcreate
    exact ⟨st₁, chain ++ news, hstep hcreate, hsortable₁,
      (namesDistinct_iff hsortable₁.toVarsHeld (by omega)).mpr hnames₁, hlen₁⟩

/-- After each call of a run whose calls create new names, the names in the list are pairwise
distinct. -/
theorem namesDistinct_run {calls : List (GroupCall × List StoreRoom)}
    (hsortable : VarsSortable st chain) (hnames : NamesDistinct fuel st)
    (hfuel : chain.length + (calls.map fun call => call.2.length).sum < fuel)
    (hfresh : GuardedRun (addStep env sql fuel) (fun st call => FreshRooms st call.2) st calls)
    (hmeets : GuardedRun (addStep env sql fuel) (MeetsNames fuel) st calls) (k : ℕ) :
    ∃ outs st', runBlocking (addStep env sql fuel) st (calls.take k) = some (outs, st') ∧
      NamesDistinct fuel st' := by
  induction calls generalizing st chain k with
  | nil => exact ⟨[], st, by rw [List.take_nil, runBlocking], hnames⟩
  | cons call calls ih =>
    cases k with
    | zero => exact ⟨[], st, rfl, hnames⟩
    | succ k =>
      rw [List.map_cons, List.sum_cons] at hfuel
      obtain ⟨hfreshHead, hfresh⟩ := hfresh
      obtain ⟨hmeetsHead, hmeets⟩ := hmeets
      obtain ⟨st₁, chain₁, hstep, hsortable₁, hnames₁, hlen₁⟩ :=
        @addStep_keeps env sql fuel st chain call hsortable hnames (by omega) hfreshHead hmeetsHead
      rw [hstep] at hfresh hmeets
      obtain ⟨outs, st', hrun, hend⟩ := ih hsortable₁ hnames₁ (by omega) hfresh hmeets k
      refine ⟨() :: outs, st', ?_, hend⟩
      rw [List.take_succ_cons, runBlocking, hstep, Option.bind_some, hrun]
      rfl

end Run

/-- No names are distinct. -/
theorem emptyStores_namesDistinct {fuel : ℕ} : NamesDistinct fuel emptyStores := by
  have hheld : VarsHeld emptyStores [] := emptyStores_listed.sortable.toVarsHeld
  exact (namesDistinct_iff hheld (Nat.zero_le _)).mpr List.nodup_nil

/-- Eight analog inputs, with memory for all of them. -/
def addInputs : GroupCall × List StoreRoom := (.ai "1" "p" 1 0 0, (List.range 8).map plainRoom)

/-- Eight inputs are created in an empty list. -/
theorem namesDistinct_run_inputs : ∃ outs st',
    runBlocking (addStep (plainEnv .null) plainSql 9) emptyStores ([addInputs].take 1) =
    some (outs, st') ∧ NamesDistinct 9 st' := by
  have hfresh : GuardedRun (addStep (plainEnv .null) plainSql 9)
      (fun st call => FreshRooms st call.2) emptyStores [addInputs] :=
    ⟨⟨by decide, fun _ _ => rfl⟩, by split <;> trivial⟩
  have hmeets : GuardedRun (addStep (plainEnv .null) plainSql 9) (MeetsNames 9) emptyStores
      [addInputs] :=
    ⟨.inr (.inr (.inl (by decide))), by split <;> trivial⟩
  exact namesDistinct_run emptyStores_listed.sortable emptyStores_namesDistinct
    (by decide) hfresh hmeets 1

/-- A device with a register of the name that the first of eight digital inputs gets, and then these. -/
def addTwice : List (GroupCall × List StoreRoom) :=
  [(.dev (deviceOf [regOf "p_TTL_DI_0" 3]) 0 0 0, [plainRoom 0]),
    (.ttl 2 "1" "p" 1 0 0, (List.range 8).map fun n => plainRoom (n + 1))]

/-- The first of the eight inputs is created with a name that is in the list. -/
theorem not_namesDistinct_twice :
    ¬ ∀ (env : CJsonEnv) (sql : SqlName) (fuel : ℕ) (st : VarStores) (chain : List ℕ)
    (calls : List (GroupCall × List StoreRoom)), VarsSortable st chain → NamesDistinct fuel st →
    chain.length + (calls.map fun call => call.2.length).sum < fuel →
    GuardedRun (addStep env sql fuel) (fun st call => FreshRooms st call.2) st calls → ∀ k : ℕ,
    ∃ outs st', runBlocking (addStep env sql fuel) st (calls.take k) = some (outs, st') ∧
      NamesDistinct fuel st' := by
  intro h
  have hfresh : GuardedRun (addStep (plainEnv .null) plainSql 10)
      (fun st call => FreshRooms st call.2) emptyStores addTwice := by
    decide +kernel
  obtain ⟨outs, st', hrun, hnames⟩ :=
    h (plainEnv .null) plainSql 10 emptyStores [] addTwice emptyStores_listed.sortable
    emptyStores_namesDistinct (by decide) hfresh 2
  have htwice : ((runBlocking (addStep (plainEnv .null) plainSql 10) emptyStores
    (addTwice.take 2)).map fun r =>
      decide ((liveInfos 10 r.2).map (·.szName)).Nodup) = some false := by decide +kernel
  rw [hrun, Option.map_some, Option.some_inj, decide_eq_false_iff_not] at htwice
  exact htwice hnames

end DasEdge.VarManage
