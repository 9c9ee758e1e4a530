import DasEdge.Library.CJsonItem
import DasEdge.Library.DoubleFormat
import DasEdge.VarManage.ExtDataInfo
import Mathlib.Data.List.TakeWhile
import Mathlib.Data.UInt

/-!
# The record of a variable and its object

`jsonParseExtDataInfo` into a zeroed record after `jsonFillExtDataInfo`. Each field has a key of its
own. Numbers of 32 bits without a sign go through an `int`; the numbers behind the four flags of
`io` are only written with their flag.
-/

namespace DasEdge.VarManage

open DasEdge.Library

/-- A null string and an empty one are the same text. -/
def SameText (a b : Option String) : Prop := a.getD "" = b.getD ""

/-- The string in the key of the parameters of the environment protocol. -/
def paramKey (param : List UInt8) : List UInt8 := ((param.drop 8).take 16).takeWhile (· ≠ 0)

/-- The parameters of a protocol come back, an operation 0 of Modbus as 3. -/
def SameParam (devType protoType : ℕ) (a b : List UInt8) : Prop :=
  if protoIsModbus devType protoType || protoIsObmodbus devType protoType then
    paramUInt8 b 0 = (if paramUInt8 a 0 = 0 then 3 else paramUInt8 a 0) ∧
      paramUInt32 b 4 = paramUInt32 a 4 ∧
      paramUInt8 b 8 = paramUInt8 a 8 ∧ paramUInt16 b 10 = paramUInt16 a 10 ∧
      paramUInt16 b 12 = paramUInt16 a 12
  else if protoIsDlt645 devType protoType then
    (∀ i < 6, paramUInt8 b i = paramUInt8 a i) ∧ paramUInt32 b 8 = paramUInt32 a 8
  else if protoIsMbus603 devType protoType then paramUInt8 b 0 = paramUInt8 a 0 ∧
    paramUInt32 b 4 = paramUInt32 a 4
  else if protoIsDust devType protoType then paramUInt8 b 0 = paramUInt8 a 0
  else if protoIsSmf devType protoType then paramUInt8 b 0 = paramUInt8 a 0
  else if protoIsDh devType protoType then
    paramUInt32 b 0 = paramUInt32 a 0 ∧ paramUInt32 b 4 = paramUInt32 a 4 ∧ paramKey b = paramKey a
  else True

/-- The expression or the rule comes back. -/
def SameExp (expType : Int32) (a b : InfoExp) : Prop :=
  if expType = 0 then SameText a.name b.name
  else if expType = 1 then SameText a.name b.name ∧ SameText a.pIn b.pIn ∧ SameText a.pOut b.pOut
  else True

/-- The settings of `io` without the four numbers behind the flags. -/
structure SameIo (a b : InfoIo) : Prop where
  errOp : b.btErrOp = a.btErrOp
  errCnt : b.btErrCnt = a.btErrCnt
  rwType : b.btRWType = a.btRWType
  inVarType : b.btInVarType = a.btInVarType
  inVarRuleType : b.btInVarRuleType = a.btInVarRuleType
  outVarType : b.btOutVarType = a.btOutVarType
  outVarRuleType : b.btOutVarRuleType = a.btOutVarRuleType
  useMax : b.bUseMax = a.bUseMax
  useMin : b.bUseMin = a.bUseMin
  useInit : b.bUseInit = a.bUseInit
  useRatio : b.bUseRatio = a.bUseRatio
  devType : b.usDevType = a.usDevType
  devNum : b.usDevNum = a.usDevNum
  protoType : b.usProtoType = a.usProtoType
  protoName : SameText a.szProtoName b.szProtoName
  addr : b.usAddr = a.usAddr
  param : SameParam a.usDevType.toNat a.usProtoType.toNat a.param b.param
  expType : b.expType = a.expType
  exp : SameExp a.expType a.exp b.exp

/-- The settings of `storage`. -/
structure SameStorage (a b : InfoStorage) : Prop where
  enable : b.bEnable = a.bEnable
  step : b.ulStep = a.ulStep
  type : b.btType = a.btType
  check : b.bCheck = a.bCheck
  max : SameFloat a.fMax b.fMax
  min : SameFloat a.fMin b.fMin

/-- The settings of `up`. -/
structure SameUp (a b : InfoUp) : Prop where
  enable : b.bEnable = a.bEnable
  nid : SameText a.szNid b.szNid
  fid : SameText a.szFid b.szFid
  unit : SameText a.szUnit b.szUnit
  pi : b.pi = a.pi
  devType : b.usDevType = a.usDevType
  devNum : b.usDevNum = a.usDevNum
  protoType : b.usProtoType = a.usProtoType
  protoName : SameText a.szProtoName b.szProtoName
  desc : SameText a.szDesc b.szDesc

/-- The settings of an analog input. -/
structure SameAi (a b : InfoAi) : Prop where
  range : b.range = a.range
  unit : b.unit = a.unit
  rangeMin : SameFloat a.extRangeMin b.extRangeMin
  rangeMax : SameFloat a.extRangeMax b.extRangeMax
  factor : SameFloat a.extFactor b.extFactor

/-- The settings of a variable without the four numbers behind the flags of `io`. -/
structure SameInfo (a b : ExtDataInfo) : Prop where
  enable : b.bEnable = a.bEnable
  groupText : b.szGroup = a.szGroup
  nameText : b.szName = a.szName
  aliasText : b.szAlias = a.szAlias
  attr : b.eAttr = a.eAttr
  io : SameIo a.xIo b.xIo
  alarm : b.xAlarm = a.xAlarm
  storage : SameStorage a.xStorage b.xStorage
  up : SameUp a.xUp b.xUp
  ai : a.eAttr = 1 → SameAi a.ai b.ai

/-- The numbers behind the flags come back, whether they are in use or not. -/
structure SameLimits (a b : InfoIo) : Prop where
  max : SameFloat a.fMax b.fMax
  min : SameFloat a.fMin b.fMin
  init : SameFloat a.fInit b.fInit
  ratio : SameFloat a.fRatio b.fRatio

/-- A number comes back when it is in use, else there is 0. -/
def UsedFloat (used : Bool) (x y : UInt32) : Prop := if used then SameFloat x y else y = 0

/-- The numbers behind the flags come back when they are in use. -/
structure UsedLimits (a b : InfoIo) : Prop where
  max : UsedFloat a.bUseMax a.fMax b.fMax
  min : UsedFloat a.bUseMin a.fMin b.fMin
  init : UsedFloat a.bUseInit a.fInit b.fInit
  ratio : UsedFloat a.bUseRatio a.fRatio b.fRatio

/-- What is read into a zeroed record from the object of a variable. -/
def readBack (env : CJsonEnv) (data : ExtDataInfo) : ExtDataInfo :=
  jsonParseExtDataInfo env (jsonFillExtDataInfo env data) {}

/-- Every setting of a variable comes back. -/
def GivesBack (env : CJsonEnv) (data : ExtDataInfo) : Prop :=
  SameInfo data (readBack env data) ∧ SameLimits data.xIo (readBack env data).xIo

/-- Every setting of a variable comes back that is in use. -/
def GivesBackUsed (env : CJsonEnv) (data : ExtDataInfo) : Prop :=
  SameInfo data (readBack env data) ∧ UsedLimits data.xIo (readBack env data).xIo

/-- A record of a variable with types and byte rules that there are, and with strings that fit into
their arrays. -/
structure InfoSound (data : ExtDataInfo) : Prop where
  groupText : data.szGroup.length ≤ 32
  nameText : data.szName.length ≤ 32
  aliasText : data.szAlias.length ≤ 32
  inVarType : data.xIo.btInVarType < 10
  outVarType : data.xIo.btOutVarType < 10
  inVarRuleType : data.xIo.btInVarRuleType < 4
  outVarRuleType : data.xIo.btOutVarRuleType < 4
  param : data.xIo.param.length = 24
  key : protoIsDh data.xIo.usDevType.toNat data.xIo.usProtoType.toNat →
    0 ∈ (data.xIo.param.drop 8).take 16

/-- The 32-bit numbers of the protocol fit into an `int`. -/
def ParamFits (devType protoType : ℕ) (param : List UInt8) : Prop :=
  if protoIsModbus devType protoType || protoIsObmodbus devType protoType then True
  else if protoIsDlt645 devType protoType then paramUInt32 param 8 < 2 ^ 31
  else if protoIsMbus603 devType protoType then paramUInt32 param 4 < 2 ^ 31
  else if protoIsDust devType protoType then True
  else if protoIsSmf devType protoType then True
  else if protoIsDh devType protoType then paramUInt32 param 0 < 2 ^ 31 ∧ paramUInt32 param 4 < 2 ^ 31
  else True

/-- The 32-bit numbers of a variable fit into an `int`. -/
structure WordsFit (data : ExtDataInfo) : Prop where
  step : data.xStorage.ulStep < 2 ^ 31
  param : ParamFits data.xIo.usDevType.toNat data.xIo.usProtoType.toNat data.xIo.param

/-! ## Numbers, flags and texts -/

section Fields

variable {env : CJsonEnv} (h : NumbersKept env)

include h

/-- A field of one byte comes back. -/
theorem natItem_uint8 (x : UInt8) : (natItem env x.toNat).valueint.toUInt32.toUInt8 = x := by
  rw [natItem, h.valueint_nat (by have := x.toNat_lt; omega)]
  exact UInt8.toNat.inj (by simp)

/-- A field of two bytes comes back. -/
theorem natItem_uint16 (x : UInt16) : (natItem env x.toNat).valueint.toUInt32.toUInt16 = x := by
  rw [natItem, h.valueint_nat (by have := x.toNat_lt; omega)]
  exact UInt16.toNat.inj (by simp)

/-- A field of four bytes comes back when it fits into an `int`. -/
theorem natItem_uint32 {x : UInt32} (hx : x < 2 ^ 31) :
    (natItem env x.toNat).valueint.toUInt32 = x := by
  have hlt : x.toNat < 2 ^ 31 := UInt32.lt_iff_toNat_lt.mp hx
  rw [natItem, h.valueint_nat hlt]
  exact UInt32.toNat.inj (by simp)

/-- A flag comes back. -/
theorem flagOf_flagItem (old flag : Bool) : flagOf old (flagItem env flag).valueint = flag := by
  have hvalue : (flagItem env flag).valueint = (if flag then 1 else 0 : Int32) := by
    cases flag with
    | false => exact h.valueint 0
    | true => exact h.valueint 1
  rw [hvalue]
  cases flag <;> rfl

/-- A number comes back. -/
theorem toFloat_floatItem (x : UInt32) :
    SameFloat x (env.toFloat (floatItem env x).valuedouble) := h.float x

end Fields

/-- A text comes back. -/
theorem dupText_textItem (text : Option String) :
    SameText text (dupText none (textItem text).valuestring) := by
  rw [SameText, textItem, CJsonItem.valuestring, dupText]
  split
  · next hempty => exact String.toList_inj.mp (by rw [hempty]; rfl)
  · rfl

/-- A text that fits is copied whole. -/
theorem strncpy_eq {text : String} (h : text.length ≤ 32) : strncpy text = text := by
  rw [strncpy, List.take_of_length_le (by rwa [String.length_toList])]
  exact String.ofList_toList

/-! ## Parameters in memory -/

/-- Bytes that are written keep the size of the parameters. -/
theorem length_putParam {param bytes : List UInt8} {pos : ℕ}
    (hpos : pos + bytes.length ≤ param.length) :
    (putParam param pos bytes).length = param.length := by
  simp only [putParam, List.length_append, List.length_take, List.length_drop]
  omega

/-- What is at a place after bytes are written. -/
theorem getD_putParam {param bytes : List UInt8} {pos : ℕ}
    (hpos : pos + bytes.length ≤ param.length) (i : ℕ) :
    (putParam param pos bytes).getD i 0 = if pos ≤ i ∧
      i < pos + bytes.length then bytes.getD (i - pos) 0 else param.getD i 0 := by
  have htake : (param.take pos).length = pos := List.length_take_of_le (by omega)
  rw [putParam, List.append_assoc, List.getD_eq_getElem?_getD]
  rcases Nat.lt_or_ge i pos with hlt | hge
  · rw [List.getElem?_append_left (by omega), List.getElem?_take_of_lt hlt, if_neg (by omega),
      List.getD_eq_getElem?_getD]
  · rw [List.getElem?_append_right (by omega), htake]
    rcases Nat.lt_or_ge i (pos + bytes.length) with hin | hout
    · rw [List.getElem?_append_left (by omega), if_pos ⟨hge, hin⟩, List.getD_eq_getElem?_getD]
    · rw [List.getElem?_append_right (by omega), if_neg (by omega), List.getElem?_drop,
        List.getD_eq_getElem?_getD]
      congr 2
      omega

/-- The parameters after writes at several places, one after the other. -/
def putAll (param : List UInt8) (writes : List (ℕ × List UInt8)) : List UInt8 :=
  writes.foldl (fun param write => putParam param write.1 write.2) param

/-- Writes keep the size of the parameters. -/
theorem length_putAll {param : List UInt8} {writes : List (ℕ × List UInt8)}
    (hfits : ∀ write ∈ writes, write.1 + write.2.length ≤ param.length) :
    (putAll param writes).length = param.length := by
  induction writes generalizing param with
  | nil => rfl
  | cons write writes ih =>
    obtain ⟨hfirst, hrest⟩ := List.forall_mem_cons.mp hfits
    have hlength := length_putParam hfirst
    exact (ih (by rwa [hlength])).trans hlength

/-- What is at a place that no write reaches. -/
theorem getD_putAll_apart {param : List UInt8} {writes : List (ℕ × List UInt8)}
    (hfits : ∀ write ∈ writes, write.1 + write.2.length ≤ param.length) {i : ℕ}
    (hapart : ∀ write ∈ writes, i < write.1 ∨ write.1 + write.2.length ≤ i) :
    (putAll param writes).getD i 0 = param.getD i 0 := by
  induction writes generalizing param with
  | nil => rfl
  | cons write writes ih =>
    obtain ⟨hfirst, hrest⟩ := List.forall_mem_cons.mp hfits
    obtain ⟨haway, hothers⟩ := List.forall_mem_cons.mp hapart
    have hrest' : ∀ write' ∈ writes, write'.1 + write'.2.length ≤
        (putParam param write.1 write.2).length := by
      rwa [length_putParam hfirst]
    have hkeep := ih hrest' hothers
    rw [getD_putParam hfirst, if_neg (by omega)] at hkeep
    exact hkeep

/-- Writes that are apart from each other all stay. -/
theorem showsAt_putAll (param : List UInt8) (writes : List (ℕ × List UInt8))
    (hfits : ∀ write ∈ writes, write.1 + write.2.length ≤ param.length)
    (hapart : writes.Pairwise fun a b => a.1 + a.2.length ≤ b.1) :
    ∀ write ∈ writes, ShowsAt (fun i => (putAll param writes).getD i 0) write.1 write.2 := by
  induction writes generalizing param with
  | nil =>
    intro write hwrite
    cases hwrite
  | cons first writes ih =>
    obtain ⟨hfirst, hrest⟩ := List.forall_mem_cons.mp hfits
    obtain ⟨hahead, hothers⟩ := List.pairwise_cons.mp hapart
    have hrest' : ∀ write ∈ writes, write.1 + write.2.length ≤
        (putParam param first.1 first.2).length := by
      rwa [length_putParam hfirst]
    refine List.forall_mem_cons.mpr ⟨fun i hi => ?_, ih _ hrest' hothers⟩
    have hbehind : ∀ other ∈ writes, first.1 + i < other.1 ∨
      other.1 + other.2.length ≤ first.1 + i := fun other hother =>
      Or.inl (by have := hahead other hother; omega)
    have hkeep := getD_putAll_apart hrest' hbehind
    rw [getD_putParam hfirst, if_pos ⟨by omega, by omega⟩, Nat.add_sub_cancel_left,
      List.getD_eq_getElem?_getD (l := first.2),
      List.getElem?_eq_getElem hi] at hkeep
    exact hkeep

/-- A word of two bytes. -/
theorem paramWord_two (param : List UInt8) (pos : ℕ) :
    paramWord param pos 2 = (param.getD pos 0).toNat + (param.getD (pos + 1) 0).toNat * 0x100 := by
  rw [paramWord, digitSum_succ, digitSum_succ]
  simp only [digitSum, List.range_zero, List.map_nil, List.sum_nil, Nat.zero_add, Nat.reducePow,
    Nat.mul_one, Nat.add_zero]

/-- A word of four bytes. -/
theorem paramWord_four (param : List UInt8) (pos : ℕ) :
    paramWord param pos 4 = (param.getD pos 0).toNat + (param.getD (pos + 1) 0).toNat * 0x100 +
      (param.getD (pos + 2) 0).toNat * 0x10000 + (param.getD (pos + 3) 0).toNat * 0x1000000 := by
  rw [paramWord, digitSum_succ, digitSum_succ, digitSum_succ, digitSum_succ]
  simp only [digitSum, List.range_zero, List.map_nil, List.sum_nil, Nat.zero_add, Nat.reducePow,
    Nat.mul_one, Nat.add_zero]

/-- A field of four bytes is the word in its place. -/
theorem paramUInt32_eq (param : List UInt8) (pos : ℕ) :
    paramUInt32 param pos = readUInt32 (fun i => param.getD i 0) pos := by
  rw [paramUInt32, paramWord_four, ← readUInt32_toNat (fun i => param.getD i 0), UInt32.ofNat_toNat]

/-- A field of two bytes is the word in its place. -/
theorem paramUInt16_eq (param : List UInt8) (pos : ℕ) :
    paramUInt16 param pos = (param.getD pos 0).toUInt16 + (param.getD (pos + 1) 0).toUInt16 *
      0x100 := by
  rw [paramUInt16, paramWord_two]
  exact UInt16.toNat.inj (by simp)

/-- A byte that is shown. -/
theorem paramUInt8_of_shows {param : List UInt8} {pos : ℕ} {b : UInt8}
    (h : ShowsAt (fun i => param.getD i 0) pos [b]) :
    paramUInt8 param pos = b := h 0 Nat.one_pos

/-- A word of four bytes that is shown. -/
theorem paramUInt32_of_shows {param : List UInt8} {pos : ℕ} {n : UInt32}
    (h : ShowsAt (fun i => param.getD i 0) pos (uint32Bytes n)) :
    paramUInt32 param pos = n := by
  rw [paramUInt32_eq]
  exact (readUInt32_eq_iff _ _ _).mpr h

/-- A string that is shown with its end. -/
theorem paramKey_of_shows {param key : List UInt8} (hlength : param.length = 24)
    (h : ShowsAt (fun i => param.getD i 0) 8 (key ++ [0])) (hclean : ∀ b ∈ key, b ≠ 0) (hkey : key.length < 16) :
    paramKey param = key := by
  have hfront : (param.drop 8).take (key.length + 1) = key ++ [0] := by
    refine List.ext_getElem (by simp [hlength]; omega) fun i hi hi' => ?_
    have hshown : param.getD (8 + i) 0 = (key ++ [0])[i] := h i hi'
    rw [List.getD_eq_getElem?_getD, List.getElem?_eq_getElem (by rw [List.length_append, List.length_singleton] at hi'; omega)] at hshown
    rw [List.getElem_take, List.getElem_drop]
    exact hshown
  obtain ⟨rest, hrest⟩ : ∃ rest, (param.drop 8).take 16 = key ++ 0 :: rest := by
    refine ⟨((param.drop 8).take 16).drop (key.length + 1), ?_⟩
    have hsplit := List.take_append_drop (key.length + 1) ((param.drop 8).take 16)
    rw [List.take_take, Nat.min_eq_left (by omega), hfront, List.append_assoc,
      List.singleton_append] at hsplit
    exact hsplit.symm
  rw [paramKey, hrest, List.takeWhile_append_of_pos (fun b hb => by simpa using hclean b hb)]
  simp

/-- A word of two bytes that is shown. -/
theorem paramUInt16_of_shows {param : List UInt8} {pos : ℕ} {n : UInt16}
    (h : ShowsAt (fun i => param.getD i 0) pos (uint16Bytes n)) :
    paramUInt16 param pos = n := by
  rw [paramUInt16_eq]
  exact (uint16_eq_iff (fun i => param.getD i 0) _ _).mpr h

/-! ## The keys of `io` -/

/-- A number is found under its key when it is used. -/
theorem fillUsed_lookup (env : CJsonEnv) (key : String) (used : Bool) (x : UInt32) :
    (fillUsed env key used x).lookup key = if used then some (floatItem env x) else none := by
  rw [fillUsed]
  split <;> simp

/-- No other number is found there. -/
theorem fillUsed_lookup_ne (env : CJsonEnv) {key k : String} (used : Bool) (x : UInt32) (h : key ≠ k) :
    (fillUsed env k used x).lookup key = none := by
  rw [fillUsed]
  split
  · rw [lookup_cons_ne h, List.lookup_nil]
  · rfl

/-- The keys of the parameters. -/
def paramKeys : List String :=
  ["mbop", "sa", "sfa", "ea", "ao", "dltad", "dltop", "mbus603ad", "mbus603op", "dustop", "smfop",
    "dhsid", "dhtype", "dhkey"]

/-- The parameters have keys of their own. -/
theorem fillParam_keys (env : CJsonEnv) (devType protoType : ℕ) (param : List UInt8) :
    ∀ key ∈ (fillParam env devType protoType param).map Prod.fst, key ∈ paramKeys := by
  rw [fillParam]
  split_ifs <;> simp [paramKeys]

/-- Another key is not found there. -/
theorem fillParam_lookup_ne (env : CJsonEnv) (devType protoType : ℕ) (param : List UInt8)
    {key : String} (h : key ∉ paramKeys) :
    (fillParam env devType protoType param).lookup key = none := by
  rw [List.lookup_eq_none_iff]
  intro item hitem
  have hmem := fillParam_keys env devType protoType param _ (List.mem_map_of_mem hitem)
  simpa using fun heq : key = item.1 => h (heq ▸ hmem)

/-- The keys of the expression and the rule. -/
theorem fillExp_keys (expType : Int32) (exp : InfoExp) :
    ∀ key ∈ (fillExp expType exp).map Prod.fst, key ∈ ["exp", "rule"] := by
  rw [fillExp]
  split_ifs <;> simp

/-- Another key is not found there. -/
theorem fillExp_lookup_ne (expType : Int32) (exp : InfoExp) {key : String} (h : key ∉ ["exp", "rule"]) :
    (fillExp expType exp).lookup key = none := by
  rw [List.lookup_eq_none_iff]
  intro item hitem
  have hmem := fillExp_keys expType exp _ (List.mem_map_of_mem hitem)
  simpa using fun heq : key = item.1 => h (heq ▸ hmem)

/-- No key of `io` has a capital letter. -/
theorem fillIo_lower (env : CJsonEnv) (io : InfoIo) : ∀ item ∈ fillIo env io, LowerKey item.1 := by
  have hused : ∀ key used x, LowerKey key → ∀ item ∈ fillUsed env key used x, LowerKey item.1 := by
    intro key used x hkey item hitem
    rw [fillUsed] at hitem
    split at hitem
    · rw [List.mem_singleton.mp hitem]
      exact hkey
    · cases hitem
  have hparam : ∀ key ∈ paramKeys, LowerKey key := by decide
  have hexp : ∀ key ∈ (["exp", "rule"] : List String), LowerKey key := by decide
  rw [fillIo]
  simp only [List.forall_mem_append]
  refine ⟨⟨⟨⟨⟨⟨⟨⟨?_, hused _ _ _ (by decide)⟩, hused _ _ _ (by decide)⟩, hused _ _ _ (by decide)⟩,
    hused _ _ _ (by decide)⟩, ?_⟩, ?_⟩, ?_⟩, ?_⟩
  · exact lowerKey_of_keys ["eop", "ecnt", "rw", "vt", "vs", "ovt", "ovs", "vrl", "ovrl"] rfl
      (by decide)
  · exact lowerKey_of_keys ["dt", "dtn", "pt", "pnm", "ad"] rfl (by decide)
  · exact fun item hitem => hparam _ (fillParam_keys env _ _ _ _ (List.mem_map_of_mem hitem))
  · exact lowerKey_of_keys ["exp_t"] rfl (by decide)
  · exact fun item hitem => hexp _ (fillExp_keys _ _ _ (List.mem_map_of_mem hitem))

/-- The parameters are found in `io`. -/
theorem fillIo_lookup_param (env : CJsonEnv) (io : InfoIo) {key : String} (hkey : key ∈ paramKeys)
    {v : CJsonItem}
    (h : (fillParam env io.usDevType.toNat io.usProtoType.toNat io.param).lookup key = some v) :
    (fillIo env io).lookup key = some v := by
  simp only [paramKeys, List.mem_cons, List.not_mem_nil, or_false] at hkey
  rcases hkey with rfl | rfl | rfl | rfl | rfl | rfl | rfl | rfl | rfl | rfl | rfl | rfl | rfl | rfl
  all_goals simp [fillIo, List.lookup_append, lookup_cons_ne, fillUsed_lookup_ne, h]

/-! ## The parameters come back -/

/-- A hexadecimal digit is read. -/
theorem hexChToNum_digit : ∀ n < 16, hexChToNum (UInt8.ofNat (Nat.digitChar n).toUpper.toNat) =
    UInt8.ofNat n := by decide

/-- A byte is read from its two digits. -/
theorem hexBytes_hexText (b : UInt8) (rest : List UInt8) :
    hexBytes (bytesOf (hexText b) ++ rest) = hexBytes rest ++ [b] := by
  have hb := b.toNat_lt
  have hvalue : (UInt8.ofNat (b.toNat / 16) <<< 4) + UInt8.ofNat (b.toNat % 16) = b := by
    refine UInt8.toNat.inj ?_
    simp [Nat.shiftLeft_eq]
    omega
  rw [hexText, bytesOf, String.toList_ofList, List.map_cons, List.map_cons, List.map_nil,
    List.cons_append, List.cons_append,
    List.nil_append, hexBytes, hexChToNum_digit _ (by omega), hexChToNum_digit _ (by omega), hvalue]

/-- The bytes of two texts. -/
theorem bytesOf_append (a b : String) : bytesOf (a ++ b) = bytesOf a ++ bytesOf b := by
  rw [bytesOf, String.toList_append, List.map_append]
  rfl

/-- The text of an address. -/
def addrText (param : List UInt8) : String :=
  String.join ((List.range 6).map fun i => hexText (paramUInt8 param (5 - i)))

/-- The text of an address is made of six parts. -/
theorem addrText_eq (param : List UInt8) :
    addrText param = hexText (paramUInt8 param 5) ++ hexText (paramUInt8 param 4) ++
      hexText (paramUInt8 param 3) ++
      hexText (paramUInt8 param 2) ++ hexText (paramUInt8 param 1) ++ hexText (paramUInt8 param 0) := by
  simp [addrText, String.join, show List.range 6 = [0, 1, 2, 3, 4, 5] from rfl]

/-- The text of an address has twelve digits. -/
theorem length_addrText (param : List UInt8) : (addrText param).length = 12 := by
  have hpart : ∀ b, (hexText b).length = 2 := fun b => by rw [hexText, String.length_ofList]; rfl
  rw [addrText_eq]
  simp only [String.length_append, hpart]

/-- The address is read from its text. -/
theorem hexBytes_addrText (param : List UInt8) :
    hexBytes (bytesOf (addrText param)) = (List.range 6).map fun i => paramUInt8 param i := by
  rw [addrText_eq]
  simp only [bytesOf_append, List.append_assoc, hexBytes_hexText]
  rw [← List.append_nil (bytesOf (hexText (paramUInt8 param 0))), hexBytes_hexText]
  rfl

/-- An object in which the parameters are found. -/
structure ParamObject (env : CJsonEnv) (devType protoType : ℕ) (param : List UInt8)
    (pIo : CJsonItem) : Prop where
  int : ∀ key ∈ paramKeys, ∀ v, (fillParam env devType protoType param).lookup key = some v →
    ∀ d, pIo.getInt key d = v.valueint
  text : ∀ key ∈ paramKeys, ∀ v, (fillParam env devType protoType param).lookup key = some v →
    pIo.getString key = v.valuestring

/-- The parameters are found in the object of `io`. -/
theorem paramObject_fillIo (env : CJsonEnv) (io : InfoIo) :
    ParamObject env io.usDevType.toNat io.usProtoType.toNat io.param (.object (fillIo env io)) := by
  have hlower : ∀ key ∈ paramKeys, LowerKey key := by decide
  constructor
  · intro key hkey v hv d
    exact getInt_lookup (fillIo_lower env io) (hlower key hkey) (fillIo_lookup_param env io hkey hv) d
  · intro key hkey v hv
    exact getString_lookup (fillIo_lower env io) (hlower key hkey) (fillIo_lookup_param env io hkey hv)

section Param

variable {env : CJsonEnv} (h : NumbersKept env) {devType protoType : ℕ} {param zeros : List UInt8}
  {pIo : CJsonItem}
  (hobject : ParamObject env devType protoType param pIo) (hzeros : zeros.length = 24)

include h hobject hzeros

/-- The parameters of Modbus come back. -/
theorem sameParam_modbus
    (hproto : (protoIsModbus devType protoType || protoIsObmodbus devType protoType) = true) :
    SameParam devType protoType param (parseParam pIo devType protoType zeros) := by
  have hop : ∀ d, (pIo.getInt "mbop" d).toUInt32.toUInt8 = paramUInt8 param 0 := fun d => by
    rw [hobject.int "mbop" (by simp [paramKeys]) (natItem env (paramUInt8 param 0).toNat)
      (by rw [fillParam, if_pos hproto]; simp),
      natItem_uint8 h]
  have hsa : ∀ d, (pIo.getInt "sa" d).toUInt32.toUInt8 = paramUInt8 param 8 := fun d => by
    rw [hobject.int "sa" (by simp [paramKeys]) (natItem env (paramUInt8 param 8).toNat)
      (by rw [fillParam, if_pos hproto]; simp [lookup_cons_ne]), natItem_uint8 h]
  have hsfa : ∀ d, (pIo.getInt "sfa" d).toUInt32 = paramUInt32 param 4 := fun d => by
    rw [hobject.int "sfa" (by simp [paramKeys]) (env.createInt (paramUInt32 param 4).toInt32.toInt)
      (by rw [fillParam, if_pos hproto]; simp [lookup_cons_ne]), h.valueint]
    rfl
  have hea : ∀ d, (pIo.getInt "ea" d).toUInt32.toUInt16 = paramUInt16 param 10 := fun d => by
    rw [hobject.int "ea" (by simp [paramKeys]) (natItem env (paramUInt16 param 10).toNat)
      (by rw [fillParam, if_pos hproto]; simp [lookup_cons_ne]), natItem_uint16 h]
  have hao : ∀ d, (pIo.getInt "ao" d).toUInt32.toUInt16 = paramUInt16 param 12 := fun d => by
    rw [hobject.int "ao" (by simp [paramKeys]) (natItem env (paramUInt16 param 12).toNat)
      (by rw [fillParam, if_pos hproto]; simp [lookup_cons_ne]), natItem_uint16 h]
  rw [SameParam, if_pos hproto, parseParam, if_pos hproto]
  simp only [hop, hsa, hsfa, hea, hao]
  obtain ⟨hop', hsfa', hsa', hea', hao', -⟩ := by
    simpa only [List.forall_mem_cons] using showsAt_putAll zeros [
      (0, [if paramUInt8 param 0 = 0 then 3 else paramUInt8 param 0]),
      (4, uint32Bytes (paramUInt32 param 4)),
      (8, [paramUInt8 param 8]), (10, uint16Bytes (paramUInt16 param 10)),
      (12, uint16Bytes (paramUInt16 param 12))]
      (by simp [hzeros, uint32Bytes, uint16Bytes]) (by simp [uint32Bytes, uint16Bytes])
  exact ⟨paramUInt8_of_shows hop', paramUInt32_of_shows hsfa', paramUInt8_of_shows hsa',
    paramUInt16_of_shows hea',
    paramUInt16_of_shows hao'⟩

/-- The parameters of the meters come back when the operation fits into an `int`. -/
theorem sameParam_dlt645
    (hmodbus : ¬ (protoIsModbus devType protoType || protoIsObmodbus devType protoType) = true)
    (hproto : protoIsDlt645 devType protoType = true) (hfits : paramUInt32 param 8 < 2 ^ 31) :
    SameParam devType protoType param (parseParam pIo devType protoType zeros) := by
  have had : pIo.getString "dltad" = some (addrText param) :=
    hobject.text "dltad" (by simp [paramKeys]) (.string (addrText param))
      (by rw [fillParam, if_neg hmodbus, if_pos hproto]; simp [addrText])
  have hop : ∀ d, (pIo.getInt "dltop" d).toUInt32 = paramUInt32 param 8 := fun d => by
    rw [hobject.int "dltop" (by simp [paramKeys]) (natItem env (paramUInt32 param 8).toNat)
      (by rw [fillParam, if_neg hmodbus, if_pos hproto]; simp [lookup_cons_ne]), natItem_uint32 h hfits]
  rw [SameParam, if_neg hmodbus, if_pos hproto, parseParam, if_neg hmodbus, if_pos hproto]
  simp only [had, hop, length_addrText, if_true, hexBytes_addrText]
  obtain ⟨hop', had', -⟩ := by
    simpa only [List.forall_mem_cons] using showsAt_putAll zeros
      [(0, (List.range 6).map fun i => paramUInt8 param i), (8, uint32Bytes (paramUInt32 param 8))]
      (by simp [hzeros, uint32Bytes]) (by simp)
  refine ⟨fun i hi => ?_, paramUInt32_of_shows had'⟩
  have hbyte := hop' i (by simpa using hi)
  rw [Nat.zero_add, List.getElem_map, List.getElem_range] at hbyte
  exact hbyte

/-- The parameters of the heat meters come back when the operation fits into an `int`. -/
theorem sameParam_mbus603
    (hmodbus : ¬ (protoIsModbus devType protoType || protoIsObmodbus devType protoType) = true)
    (hdlt645 : ¬ protoIsDlt645 devType protoType = true)
    (hproto : protoIsMbus603 devType protoType = true)
    (hfits : paramUInt32 param 4 < 2 ^ 31) :
    SameParam devType protoType param (parseParam pIo devType protoType zeros) := by
  have had : ∀ d, (pIo.getInt "mbus603ad" d).toUInt32.toUInt8 = paramUInt8 param 0 := fun d => by
    rw [hobject.int "mbus603ad" (by simp [paramKeys]) (natItem env (paramUInt8 param 0).toNat)
      (by rw [fillParam, if_neg hmodbus, if_neg hdlt645, if_pos hproto]; simp), natItem_uint8 h]
  have hop : ∀ d, (pIo.getInt "mbus603op" d).toUInt32 = paramUInt32 param 4 := fun d => by
    rw [hobject.int "mbus603op" (by simp [paramKeys]) (natItem env (paramUInt32 param 4).toNat)
      (by rw [fillParam, if_neg hmodbus, if_neg hdlt645, if_pos hproto]; simp [lookup_cons_ne]),
      natItem_uint32 h hfits]
  rw [SameParam, if_neg hmodbus, if_neg hdlt645, if_pos hproto, parseParam, if_neg hmodbus,
    if_neg hdlt645, if_pos hproto]
  simp only [had, hop]
  obtain ⟨had', hop', -⟩ := by
    simpa only [List.forall_mem_cons] using showsAt_putAll zeros [(0, [paramUInt8 param 0]),
      (4, uint32Bytes (paramUInt32 param 4))]
      (by simp [hzeros, uint32Bytes]) (by simp)
  exact ⟨paramUInt8_of_shows had', paramUInt32_of_shows hop'⟩

omit h hobject in
/-- A parameter of one byte that is written at the front. -/
theorem paramUInt8_front (b : UInt8) : paramUInt8 (putParam zeros 0 [b]) 0 = b := by
  have hshown := showsAt_putAll zeros [(0, [b])] (by simp [hzeros]) (by simp)
  exact paramUInt8_of_shows (hshown _ (List.mem_singleton_self _))

/-- The parameters of the environment protocol come back when its two numbers fit into an `int` and
its key has an end. -/
theorem sameParam_dh
    (hmodbus : ¬ (protoIsModbus devType protoType || protoIsObmodbus devType protoType) = true)
    (hdlt645 : ¬ protoIsDlt645 devType protoType = true)
    (hmbus603 : ¬ protoIsMbus603 devType protoType = true)
    (hdust : ¬ protoIsDust devType protoType = true) (hsmf : ¬ protoIsSmf devType protoType = true)
    (hproto : protoIsDh devType protoType = true) (hsid : paramUInt32 param 0 < 2 ^ 31)
    (htype : paramUInt32 param 4 < 2 ^ 31)
    (hkey : 0 ∈ (param.drop 8).take 16) :
    SameParam devType protoType param (parseParam pIo devType protoType zeros) := by
  have hsid' : ∀ d, (pIo.getInt "dhsid" d).toUInt32 = paramUInt32 param 0 := fun d => by
    rw [hobject.int "dhsid" (by simp [paramKeys]) (natItem env (paramUInt32 param 0).toNat)
      (by rw [fillParam, if_neg hmodbus, if_neg hdlt645, if_neg hmbus603, if_neg hdust, if_neg hsmf,
      if_pos hproto]; simp),
      natItem_uint32 h hsid]
  have htype' : ∀ d, (pIo.getInt "dhtype" d).toUInt32 = paramUInt32 param 4 := fun d => by
    rw [hobject.int "dhtype" (by simp [paramKeys]) (natItem env (paramUInt32 param 4).toNat)
      (by rw [fillParam, if_neg hmodbus, if_neg hdlt645, if_neg hmbus603, if_neg hdust, if_neg hsmf,
      if_pos hproto]
          simp [lookup_cons_ne]), natItem_uint32 h htype]
  have htext : pIo.getString "dhkey" = some (textOf (paramKey param)) :=
    hobject.text "dhkey" (by simp [paramKeys]) (.string (textOf (paramKey param)))
      (by rw [fillParam, if_neg hmodbus, if_neg hdlt645, if_neg hmbus603, if_neg hdust, if_neg hsmf,
        if_pos hproto]
          simp [lookup_cons_ne, paramKey])
  have hclean : ∀ b ∈ paramKey param, b ≠ 0 := fun b hb => by simpa using List.mem_takeWhile_imp hb
  have hshort : (paramKey param).length < 16 := by
    obtain ⟨front, back, hsplit, hfront⟩ := List.eq_append_cons_of_mem hkey
    have hlength : front.length < 16 := by
      have htake := List.length_take_le 16 (param.drop 8)
      rw [hsplit, List.length_append, List.length_cons] at htake
      omega
    have hnone : ∀ b ∈ front, decide (b ≠ 0) = true := fun b hb => by
      simpa using fun hzero : b = 0 => hfront (hzero ▸ hb)
    rw [paramKey, hsplit, List.takeWhile_append_of_pos hnone]
    simpa using hlength
  have htextlen : (textOf (paramKey param)).length < 16 := by simpa [textOf] using hshort
  rw [SameParam, if_neg hmodbus, if_neg hdlt645, if_neg hmbus603, if_neg hdust, if_neg hsmf,
    if_pos hproto, parseParam,
    if_neg hmodbus, if_neg hdlt645, if_neg hmbus603, if_neg hdust, if_neg hsmf, if_pos hproto]
  simp only [hsid', htype', htext, if_pos htextlen, bytesOf_textOf]
  have hwrites : ∀ write ∈ [(0, uint32Bytes (paramUInt32 param 0)),
    (4, uint32Bytes (paramUInt32 param 4)),
      (8, paramKey param ++ [0])], write.1 + write.2.length ≤ zeros.length := by
    simp [hzeros, uint32Bytes]
    omega
  obtain ⟨hsid'', htype'', hkey', -⟩ := by
    simpa only [List.forall_mem_cons]
      using showsAt_putAll zeros [(0, uint32Bytes (paramUInt32 param 0)),
      (4, uint32Bytes (paramUInt32 param 4)),
      (8, paramKey param ++ [0])] hwrites (by simp [uint32Bytes])
  refine ⟨paramUInt32_of_shows hsid'', paramUInt32_of_shows htype'',
    paramKey_of_shows ?_ hkey' hclean hshort⟩
  exact (length_putAll hwrites).trans hzeros

/-- The parameters of every protocol come back. -/
theorem sameParam_parseParam (hfits : ParamFits devType protoType param)
    (hkey : protoIsDh devType protoType = true → 0 ∈ (param.drop 8).take 16) :
    SameParam devType protoType param (parseParam pIo devType protoType zeros) := by
  by_cases hmodbus : (protoIsModbus devType protoType || protoIsObmodbus devType protoType) = true
  · exact sameParam_modbus h hobject hzeros hmodbus
  rw [ParamFits, if_neg hmodbus] at hfits
  by_cases hdlt645 : protoIsDlt645 devType protoType = true
  · exact sameParam_dlt645 h hobject hzeros hmodbus hdlt645 (by rwa [if_pos hdlt645] at hfits)
  rw [if_neg hdlt645] at hfits
  by_cases hmbus603 : protoIsMbus603 devType protoType = true
  · exact sameParam_mbus603 h hobject hzeros hmodbus hdlt645 hmbus603
      (by rwa [if_pos hmbus603] at hfits)
  rw [if_neg hmbus603] at hfits
  by_cases hdust : protoIsDust devType protoType = true
  · have hop : ∀ d, (pIo.getInt "dustop" d).toUInt32.toUInt8 = paramUInt8 param 0 := fun d => by
      rw [hobject.int "dustop" (by simp [paramKeys]) (natItem env (paramUInt8 param 0).toNat)
        (by rw [fillParam, if_neg hmodbus, if_neg hdlt645, if_neg hmbus603, if_pos hdust]; simp),
        natItem_uint8 h]
    rw [SameParam, if_neg hmodbus, if_neg hdlt645, if_neg hmbus603, if_pos hdust, parseParam,
      if_neg hmodbus, if_neg hdlt645,
      if_neg hmbus603, if_pos hdust, hop]
    exact paramUInt8_front hzeros _
  by_cases hsmf : protoIsSmf devType protoType = true
  · have hop : ∀ d, (pIo.getInt "smfop" d).toUInt32.toUInt8 = paramUInt8 param 0 := fun d => by
      rw [hobject.int "smfop" (by simp [paramKeys]) (natItem env (paramUInt8 param 0).toNat)
        (by rw [fillParam, if_neg hmodbus, if_neg hdlt645, if_neg hmbus603, if_neg hdust,
        if_pos hsmf]; simp), natItem_uint8 h]
    rw [SameParam, if_neg hmodbus, if_neg hdlt645, if_neg hmbus603, if_neg hdust, if_pos hsmf,
      parseParam, if_neg hmodbus,
      if_neg hdlt645, if_neg hmbus603, if_neg hdust, if_pos hsmf, hop]
    exact paramUInt8_front hzeros _
  rw [if_neg hdust, if_neg hsmf] at hfits
  by_cases hdh : protoIsDh devType protoType = true
  · rw [if_pos hdh] at hfits
    exact sameParam_dh h hobject hzeros hmodbus hdlt645 hmbus603 hdust hsmf hdh hfits.1
      hfits.2 (hkey hdh)
  · rw [SameParam, if_neg hmodbus, if_neg hdlt645, if_neg hmbus603, if_neg hdust, if_neg hsmf,
      if_neg hdh]
    trivial

end Param

/-! ## The whole record -/

/-- The numbers behind the flags are found in `io` when they are used. -/
theorem fillIo_lookup_used (env : CJsonEnv) (io : InfoIo) :
    (fillIo env io).lookup "vma" = (if io.bUseMax then some (floatItem env io.fMax) else none) ∧
      (fillIo env io).lookup "vmi" = (if io.bUseMin then some (floatItem env io.fMin) else none) ∧
      (fillIo env io).lookup "vii" = (if io.bUseInit then some (floatItem env io.fInit) else none) ∧
      (fillIo env io).lookup "vrt" = if io.bUseRatio then some (floatItem env io.fRatio) else none := by
  refine ⟨?_, ?_, ?_, ?_⟩
  all_goals
    simp [fillIo, List.lookup_append, lookup_cons_ne, fillUsed_lookup_ne, fillUsed_lookup,
      fillParam_lookup_ne, paramKeys,
      fillExp_lookup_ne]

/-- The other settings of `io` are found under their keys. -/
theorem fillIo_lookup (env : CJsonEnv) (io : InfoIo) :
    ∀ field ∈ [("eop", natItem env io.btErrOp.toNat), ("ecnt", natItem env io.btErrCnt.toNat),
      ("rw", natItem env io.btRWType.toNat),
      ("vt", natItem env io.btInVarType.toNat), ("ovt", natItem env io.btOutVarType.toNat),
      ("vrl", natItem env io.btInVarRuleType.toNat),
      ("ovrl", natItem env io.btOutVarRuleType.toNat), ("dt", natItem env io.usDevType.toNat),
      ("dtn", natItem env io.usDevNum.toNat),
      ("pt", natItem env io.usProtoType.toNat), ("pnm", textItem io.szProtoName),
      ("ad", natItem env io.usAddr.toNat),
      ("exp_t", env.createInt io.expType.toInt)], (fillIo env io).lookup field.1 = some field.2 := by
  simp [fillIo, List.lookup_append, lookup_cons_ne, fillUsed_lookup_ne, fillParam_lookup_ne, paramKeys]

section Record

variable {env : CJsonEnv} (h : NumbersKept env)

/-- The expression or the rule comes back. -/
theorem sameExp_parseExp (io : InfoIo) :
    SameExp io.expType io.exp (parseExp (.object (fillIo env io)) io.expType {}) := by
  rw [SameExp]
  split
  · next hexp =>
    have htext : (CJsonItem.object (fillIo env io)).getString "exp" =
        (textItem io.exp.name).valuestring :=
      getString_lookup (fillIo_lower env io) (by decide)
        (by simp [fillIo, List.lookup_append, lookup_cons_ne, fillUsed_lookup_ne,
          fillParam_lookup_ne, paramKeys, fillExp, hexp])
    rw [parseExp, if_pos hexp, htext]
    exact dupText_textItem _
  · next hexp =>
    split
    · next hrule =>
      let rule : List (String × CJsonItem) :=
        [("name", textItem io.exp.name), ("p_in", textItem io.exp.pIn), ("p_out", textItem io.exp.pOut)]
      have hobject : (CJsonItem.object (fillIo env io)).getObjectItem "rule" = some (.object rule) :=
        getObjectItem_lookup (fillIo_lower env io) (by decide)
          (by simp [fillIo, List.lookup_append, lookup_cons_ne, fillUsed_lookup_ne,
            fillParam_lookup_ne, paramKeys, fillExp, hrule, rule])
      have hlower : ∀ item ∈ rule, LowerKey item.1 :=
        lowerKey_of_keys ["name", "p_in", "p_out"] rfl (by decide)
      have hname : (CJsonItem.object rule).getString "name" = (textItem io.exp.name).valuestring :=
        getString_lookup hlower (by decide) (by simp [rule])
      have hpIn : (CJsonItem.object rule).getString "p_in" = (textItem io.exp.pIn).valuestring :=
        getString_lookup hlower (by decide) (by simp [rule, lookup_cons_ne])
      have hpOut : (CJsonItem.object rule).getString "p_out" = (textItem io.exp.pOut).valuestring :=
        getString_lookup hlower (by decide) (by simp [rule, lookup_cons_ne])
      simp only [parseExp, if_neg hexp, if_pos hrule, hobject, hname, hpIn, hpOut]
      exact ⟨dupText_textItem _, dupText_textItem _, dupText_textItem _⟩
    · trivial

/-- A rule type that is one is kept. -/
theorem ruleType_eq {code : Int32} {type : UInt8} (hcode : code.toUInt32.toUInt8 = type)
    (htype : type < 4) : ruleType code = type := by
  rw [ruleType, hcode, if_neg (UInt8.not_le.mpr htype)]

include h

/-- The settings of `io` come back. -/
theorem sameIo_parseIo {io : InfoIo} (hin : io.btInVarRuleType < 4) (hout : io.btOutVarRuleType < 4)
    (hfits : ParamFits io.usDevType.toNat io.usProtoType.toNat io.param)
    (hkey : protoIsDh io.usDevType.toNat io.usProtoType.toNat = true → 0 ∈ (io.param.drop 8).take 16) :
    SameIo io (parseIo env (.object (fillIo env io)) {}) ∧
      UsedLimits io (parseIo env (.object (fillIo env io)) {}) := by
  have hlower := fillIo_lower env io
  obtain ⟨hmax, hmin, hinit, hratio⟩ := fillIo_lookup_used env io
  obtain ⟨heop, hecnt, hrw, hvt, hovt, hvrl, hovrl, hdt, hdtn, hpt, hpnm, had, hexpt, -⟩ := by
    simpa only [List.forall_mem_cons] using fillIo_lookup env io
  have hint8 : ∀ {key : String} {x : UInt8}, LowerKey key →
    (fillIo env io).lookup key = some (natItem env x.toNat) → ∀ d,
      ((CJsonItem.object (fillIo env io)).getInt key d).toUInt32.toUInt8 = x := fun hkey hv d => by
    rw [getInt_lookup hlower hkey hv, natItem_uint8 h]
  have hint16 : ∀ {key : String} {x : UInt16}, LowerKey key →
    (fillIo env io).lookup key = some (natItem env x.toNat) → ∀ d,
      ((CJsonItem.object (fillIo env io)).getInt key d).toUInt32.toUInt16 = x := fun hkey hv d => by
    rw [getInt_lookup hlower hkey hv, natItem_uint16 h]
  have hused : ∀ {key : String} {used : Bool} {x : UInt32}, LowerKey key →
      ((fillIo env io).lookup key = if used then some (floatItem env x) else none) →
      ((CJsonItem.object (fillIo env io)).getObjectItem key).isSome = used ∧ UsedFloat used x
        (if ((CJsonItem.object (fillIo env io)).getObjectItem key).isSome then
          env.toFloat ((CJsonItem.object (fillIo env io)).getDouble key (env.ofFloat 0)) else 0) := by
    intro key used x hkey hlookup
    have hitem := (getObjectItem_lower hlower hkey).trans hlookup
    cases used with
    | false => exact ⟨by rw [hitem]; rfl, by rw [hitem]; rfl⟩
    | true =>
      refine ⟨by rw [hitem]; rfl, ?_⟩
      rw [hitem, UsedFloat, if_pos rfl, if_pos rfl, getDouble_lookup hlower hkey hlookup]
      exact h.float x
  have hdev : ∀ d, ((CJsonItem.object (fillIo env io)).getInt "dt" d).toUInt32.toUInt16 =
      io.usDevType :=
    hint16 (by decide) hdt
  have hproto : ∀ d, ((CJsonItem.object (fillIo env io)).getInt "pt" d).toUInt32.toUInt16 =
      io.usProtoType :=
    hint16 (by decide) hpt
  have hexpType : (CJsonItem.object (fillIo env io)).getInt "exp_t" 0 = io.expType := by
    rw [getInt_lookup hlower (by decide) hexpt, h.valueint]
  constructor
  · refine {
      errOp := hint8 (by decide) heop _
      errCnt := hint8 (by decide) hecnt _
      rwType := hint8 (by decide) hrw _
      inVarType := hint8 (by decide) hvt _
      inVarRuleType := ruleType_eq (hint8 (by decide) hvrl _) hin
      outVarType := hint8 (by decide) hovt _
      outVarRuleType := ruleType_eq (hint8 (by decide) hovrl _) hout
      useMax := (hused (by decide) hmax).1
      useMin := (hused (by decide) hmin).1
      useInit := (hused (by decide) hinit).1
      useRatio := (hused (by decide) hratio).1
      devType := hdev _
      devNum := hint16 (by decide) hdtn _
      protoType := hproto _
      protoName := ?_
      addr := hint16 (by decide) had _
      param := ?_
      expType := hexpType
      exp := ?_ }
    · rw [parseIo, getString_lookup hlower (by decide) hpnm]
      exact dupText_textItem _
    · simp only [parseIo, hdev, hproto]
      exact sameParam_parseParam h (paramObject_fillIo env io) List.length_replicate hfits hkey
    · simp only [parseIo, hexpType]
      exact sameExp_parseExp io
  · exact ⟨(hused (by decide) hmax).2, (hused (by decide) hmin).2, (hused (by decide) hinit).2,
      (hused (by decide) hratio).2⟩

/-- The settings of `storage` come back when the step fits into an `int`. -/
theorem sameStorage_parseStorage {storage : InfoStorage} (hstep : storage.ulStep < 2 ^ 31) :
    SameStorage storage (parseStorage env (.object (fillStorage env storage)) {}) := by
  have hlower : ∀ item ∈ fillStorage env storage, LowerKey item.1 :=
    lowerKey_of_keys ["se", "ss", "st", "sc", "sma", "smi"] rfl (by decide)
  obtain ⟨hse, hss, hst, hsc, hsma, hsmi⟩ : (fillStorage env storage).lookup "se" =
    some (flagItem env storage.bEnable) ∧
      (fillStorage env storage).lookup "ss" = some (natItem env storage.ulStep.toNat) ∧
      (fillStorage env storage).lookup "st" = some (natItem env storage.btType.toNat) ∧
      (fillStorage env storage).lookup "sc" = some (flagItem env storage.bCheck) ∧
      (fillStorage env storage).lookup "sma" = some (floatItem env storage.fMax) ∧
      (fillStorage env storage).lookup "smi" = some (floatItem env storage.fMin) := by
    simp [fillStorage, lookup_cons_ne]
  constructor
  · rw [parseStorage, getInt_lookup hlower (by decide) hse, flagOf_flagItem h]
  · rw [parseStorage, getInt_lookup hlower (by decide) hss, natItem_uint32 h hstep]
  · rw [parseStorage, getInt_lookup hlower (by decide) hst, natItem_uint8 h]
  · rw [parseStorage, getInt_lookup hlower (by decide) hsc, flagOf_flagItem h]
  · rw [parseStorage, getDouble_lookup hlower (by decide) hsma]
    exact toFloat_floatItem h _
  · rw [parseStorage, getDouble_lookup hlower (by decide) hsmi]
    exact toFloat_floatItem h _

/-- The settings of `up` come back. -/
theorem sameUp_parseUp (up : InfoUp) : SameUp up (parseUp (.object (fillUp env up)) {}) := by
  have hlower : ∀ item ∈ fillUp env up, LowerKey item.1 :=
    lowerKey_of_keys ["en", "nid", "fid", "unit", "pi", "dt", "dtn", "pt", "pnm", "desc"] rfl
      (by decide)
  obtain ⟨hen, hnid, hfid, hunit, hpi, hdt, hdtn, hpt, hpnm, hdesc⟩ : (fillUp env up).lookup "en" =
    some (flagItem env up.bEnable) ∧
      (fillUp env up).lookup "nid" = some (textItem up.szNid) ∧
      (fillUp env up).lookup "fid" = some (textItem up.szFid) ∧
      (fillUp env up).lookup "unit" = some (textItem up.szUnit) ∧
      (fillUp env up).lookup "pi" = some (natItem env up.pi.toNat) ∧
      (fillUp env up).lookup "dt" = some (natItem env up.usDevType.toNat) ∧
      (fillUp env up).lookup "dtn" = some (natItem env up.usDevNum.toNat) ∧
      (fillUp env up).lookup "pt" = some (natItem env up.usProtoType.toNat) ∧
      (fillUp env up).lookup "pnm" = some (textItem up.szProtoName) ∧
      (fillUp env up).lookup "desc" = some (textItem up.szDesc) := by
    simp [fillUp, lookup_cons_ne]
  constructor
  · rw [parseUp, getInt_lookup hlower (by decide) hen, flagOf_flagItem h]
  · rw [parseUp, getString_lookup hlower (by decide) hnid]
    exact dupText_textItem _
  · rw [parseUp, getString_lookup hlower (by decide) hfid]
    exact dupText_textItem _
  · rw [parseUp, getString_lookup hlower (by decide) hunit]
    exact dupText_textItem _
  · rw [parseUp, getInt_lookup hlower (by decide) hpi, natItem_uint8 h]
  · rw [parseUp, getInt_lookup hlower (by decide) hdt, natItem_uint16 h]
  · rw [parseUp, getInt_lookup hlower (by decide) hdtn, natItem_uint16 h]
  · rw [parseUp, getInt_lookup hlower (by decide) hpt, natItem_uint16 h]
  · rw [parseUp, getString_lookup hlower (by decide) hpnm]
    exact dupText_textItem _
  · rw [parseUp, getString_lookup hlower (by decide) hdesc]
    exact dupText_textItem _

/-- The settings of an analog input come back. -/
theorem sameAi_parseAi (ai : InfoAi) : SameAi ai (parseAi env (.object (fillAi env ai))) := by
  have hlower : ∀ item ∈ fillAi env ai, LowerKey item.1 :=
    lowerKey_of_keys ["range", "unit", "rmin", "rmax", "fact"] rfl (by decide)
  obtain ⟨hrange, hunit, hrmin, hrmax, hfact⟩ : (fillAi env ai).lookup "range" =
    some (env.createInt ai.range.toInt) ∧
      (fillAi env ai).lookup "unit" = some (env.createInt ai.unit.toInt) ∧
      (fillAi env ai).lookup "rmin" = some (floatItem env ai.extRangeMin) ∧
      (fillAi env ai).lookup "rmax" = some (floatItem env ai.extRangeMax) ∧
      (fillAi env ai).lookup "fact" = some (floatItem env ai.extFactor) := by
    simp [fillAi, lookup_cons_ne]
  constructor
  · rw [parseAi, getInt_lookup hlower (by decide) hrange, h.valueint]
  · rw [parseAi, getInt_lookup hlower (by decide) hunit, h.valueint]
  · simp only [parseAi]
    rw [getDouble_lookup hlower (by decide) hrmin]
    exact toFloat_floatItem h _
  · simp only [parseAi]
    rw [getDouble_lookup hlower (by decide) hrmax]
    exact toFloat_floatItem h _
  · simp only [parseAi]
    rw [getDouble_lookup hlower (by decide) hfact]
    exact toFloat_floatItem h _

/-- A variable whose 32-bit numbers fit into an `int` comes back with every setting that is in use. -/
theorem givesBackUsed {data : ExtDataInfo} (hsound : InfoSound data) (hfit : WordsFit data) : GivesBackUsed env data := by
  let items : List (String × CJsonItem) :=
    [("en", flagItem env data.bEnable), ("gp", .string data.szGroup), ("na", .string data.szName),
      ("al", .string data.szAlias),
      ("attr", env.createInt data.eAttr.toInt), ("io", .object (fillIo env data.xIo)),
      ("alarm", .object [("en", flagItem env data.xAlarm)]),
      ("storage", .object (fillStorage env data.xStorage)),
      ("up", .object (fillUp env data.xUp)),
      ("cfg", .object (if data.eAttr = 1 then fillAi env data.ai else []))]
  have hlower : ∀ item ∈ items, LowerKey item.1 :=
    lowerKey_of_keys ["en", "gp", "na", "al", "attr", "io", "alarm", "storage", "up", "cfg"] rfl
      (by decide)
  have hen : (CJsonItem.object items).getInt "en" (-1) = (flagItem env data.bEnable).valueint :=
    getInt_lookup hlower (by decide) (by simp [items]) _
  have hgp : (CJsonItem.object items).getString "gp" = some data.szGroup :=
    getString_lookup hlower (by decide) (v := .string data.szGroup) (by simp [items, lookup_cons_ne])
  have hna : (CJsonItem.object items).getString "na" = some data.szName :=
    getString_lookup hlower (by decide) (v := .string data.szName) (by simp [items, lookup_cons_ne])
  have hal : (CJsonItem.object items).getString "al" = some data.szAlias :=
    getString_lookup hlower (by decide) (v := .string data.szAlias) (by simp [items, lookup_cons_ne])
  have hattr : (CJsonItem.object items).getInt "attr" 0 = data.eAttr :=
    (getInt_lookup hlower (by decide) (v := env.createInt data.eAttr.toInt)
      (by simp [items, lookup_cons_ne]) _).trans
      (h.valueint _)
  have hio : (CJsonItem.object items).getObjectItem "io" = some (.object (fillIo env data.xIo)) :=
    getObjectItem_lookup hlower (by decide) (by simp [items, lookup_cons_ne])
  have halarm : (CJsonItem.object items).getObjectItem "alarm" =
      some (.object [("en", flagItem env data.xAlarm)]) :=
    getObjectItem_lookup hlower (by decide) (by simp [items, lookup_cons_ne])
  have hstorage : (CJsonItem.object items).getObjectItem "storage" =
      some (.object (fillStorage env data.xStorage)) :=
    getObjectItem_lookup hlower (by decide) (by simp [items, lookup_cons_ne])
  have hup : (CJsonItem.object items).getObjectItem "up" = some (.object (fillUp env data.xUp)) :=
    getObjectItem_lookup hlower (by decide) (by simp [items, lookup_cons_ne])
  have hcfg : (CJsonItem.object items).getObjectItem "cfg" =
      some (.object (if data.eAttr = 1 then fillAi env data.ai else [])) :=
    getObjectItem_lookup hlower (by decide) (by simp [items, lookup_cons_ne])
  have halarmEn : (CJsonItem.object [("en", flagItem env data.xAlarm)]).getInt "en" (-1) =
      (flagItem env data.xAlarm).valueint :=
    getInt_lookup (lowerKey_of_keys ["en"] rfl (by decide)) (by decide) (by simp) _
  have hread : readBack env data = {
      bEnable := data.bEnable, szGroup := data.szGroup, szName := data.szName, szAlias :=
      data.szAlias, eAttr := data.eAttr
      xIo := parseIo env (.object (fillIo env data.xIo)) {}
      xAlarm := data.xAlarm
      xStorage := parseStorage env (.object (fillStorage env data.xStorage)) {}
      xUp := parseUp (.object (fillUp env data.xUp)) {}
      ai := if data.eAttr = 1 then parseAi env (.object (if data.eAttr = 1 then fillAi env data.ai else [])) else {} } := by
    rw [readBack, show jsonFillExtDataInfo env data = .object items from rfl]
    simp only [jsonParseExtDataInfo, hen, hgp, hna, hal, hattr, hio, halarm, hstorage, hup, hcfg,
      halarmEn, flagOf_flagItem h,
      Option.map_some, Option.getD_some, strncpy_eq hsound.groupText, strncpy_eq hsound.nameText,
      strncpy_eq hsound.aliasText]
  obtain ⟨hsameIo, hlimits⟩ :=
    sameIo_parseIo h hsound.inVarRuleType hsound.outVarRuleType hfit.param hsound.key
  rw [GivesBackUsed, hread]
  refine ⟨⟨rfl, rfl, rfl, rfl, rfl, hsameIo, rfl, sameStorage_parseStorage h hfit.step,
    sameUp_parseUp h _, fun hai => ?_⟩, hlimits⟩
  simp only [if_pos hai]
  exact sameAi_parseAi h _

end Record

/-- The conversions of a processor that goes to the nearest `int`. -/
def clampEnv : CJsonEnv where
  ofInt := encodeInt
  toInt d := Int32.ofInt (max (-2 ^ 31) (min (2 ^ 31 - 1) (decodeInt d)))
  ofFloat := widen
  toFloat := narrow
  print _ := ""
  parse _ := none

/-- These conversions keep what they should. -/
theorem clampEnv_kept : NumbersKept clampEnv where
  int n := by
    have hlow := n.le_toInt
    have hhigh := n.toInt_lt
    have hdecode : decodeInt (encodeInt n.toInt) = n.toInt := decodeInt_encode (by omega)
    have hclamp : max (-2 ^ 31) (min (2 ^ 31 - 1) n.toInt) = n.toInt := by omega
    change Int32.ofInt (max (-2 ^ 31) (min (2 ^ 31 - 1) (decodeInt (encodeInt n.toInt)))) = n
    rw [hdecode, hclamp, Int32.ofInt_toInt]
  float x := Or.inl (narrow_widen x).symm

/-- An enabled variable of a meter, with an upper limit. -/
def meterInfo : ExtDataInfo where
  bEnable := true
  szGroup := "meters"
  szName := "energy"
  xIo := { btInVarType := 7, btOutVarType := 7, bUseMax := true, fMax := 0x42C80000, usProtoType := 2 }

/-- The record is sound. -/
theorem meterInfo_sound : InfoSound meterInfo where
  groupText := by decide
  nameText := by decide
  aliasText := by decide
  inVarType := by decide
  outVarType := by decide
  inVarRuleType := by decide
  outVarRuleType := by decide
  param := by decide
  key h := absurd h (by decide)

/-- It comes back. -/
theorem givesBackUsed_meter : GivesBackUsed clampEnv meterInfo := by
  refine givesBackUsed clampEnv_kept meterInfo_sound { step := by decide, param := ?_ }
  rw [ParamFits, if_neg (by decide), if_pos (by decide)]
  decide

/-- The variable with its upper limit switched off. -/
def limitOff : ExtDataInfo := { meterInfo with xIo := { meterInfo.xIo with bUseMax := false } }

/-- The variable with a step between two records of 2^31 seconds. -/
def longStep : ExtDataInfo := { meterInfo with xStorage := { ulStep := 2 ^ 31 } }

/-- A limit that is switched off does not come back, nor does a number above those of an `int`. -/
theorem not_givesBack_off :
    (InfoSound limitOff ∧ ¬ GivesBack clampEnv limitOff) ∧ InfoSound longStep ∧
      ¬ GivesBack clampEnv longStep := by
  refine ⟨⟨{ meterInfo_sound with }, fun hback => ?_⟩, { meterInfo_sound with }, fun hback => ?_⟩
  · have hmax := hback.2.max
    rw [show (readBack clampEnv limitOff).xIo.fMax = 0 by decide] at hmax
    rcases hmax with hzero | ⟨-, hnan⟩
    · exact absurd hzero (by decide)
    · exact absurd hnan.2 (by decide)
  · have hstep := hback.1.storage.step
    rw [show (readBack clampEnv longStep).xStorage.ulStep = 2 ^ 31 - 1 by decide] at hstep
    exact absurd hstep (by decide)

end DasEdge.VarManage
