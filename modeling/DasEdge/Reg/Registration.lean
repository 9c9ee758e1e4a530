import DasEdge.Board.DasUtil
import DasEdge.Library.HostWords
import DasEdge.Reg.RtuReg

/-!
# Registration and trial time

A device that is not registered runs on trial, and its trial time is counted up to a limit. The key and
the trial time each have a block of the flash, which is erased and then written. The power can be lost
before each of these operations and behind it, and the device then starts with what the flash holds.
-/

namespace DasEdge.Reg

open DasEdge.Board DasEdge.Library

/-- `CFG_MAGIC` -/
def cfgMagic : UInt32 := 0xD6BCF4ED

/-- `REG_DEF_RANDOMCODE` -/
def regDefRandomcode : UInt32 := 0x54DCF6A0

/-- `REG_TEST_OVER_TIME`, in seconds. -/
def regTestOverTime : UInt32 := 90 * 24 * 60 * 60

/-- `reg_info_t` -/
structure RegInfo where
  testTime : UInt32
  code : UInt32
deriving DecidableEq

/-- `reg_t`, with the bytes between its fields. -/
structure RegT where
  key : Vector UInt8 129
  padding : Vector UInt8 3
  regTime : UInt32
deriving DecidableEq

/-- `g_reg_info` in memory. -/
def RegInfo.bytes (info : RegInfo) : List UInt8 := uint32Bytes info.testTime ++ uint32Bytes info.code

/-- `g_reg_info` that was copied from bytes. -/
def RegInfo.ofBytes (bytes : List UInt8) : RegInfo where
  testTime := readUInt32 (fun i => bytes.getD i 0) 0
  code := readUInt32 (fun i => bytes.getD i 0) 4

/-- `g_reg` in memory. -/
def RegT.bytes (reg : RegT) : List UInt8 :=
  reg.key.toList ++ (reg.padding.toList ++ uint32Bytes reg.regTime)

/-- `g_reg` that was copied from bytes. -/
def RegT.ofBytes (bytes : List UInt8) : RegT where
  key := Vector.ofFn fun i => bytes.getD i.val 0
  padding := Vector.ofFn fun i => bytes.getD (129 + i.val) 0
  regTime := readUInt32 (fun i => bytes.getD i 0) 132

/-- `c_reg_default` -/
def cRegDefault : RegT := ⟨Vector.replicate 129 0, Vector.replicate 3 0, 0⟩

/-- The text in `g_reg.key`. -/
def RegT.text (reg : RegT) : List UInt8 := reg.key.toList.takeWhile (· ≠ 0)

section Flash

/-- A block of the flash from its beginning on. -/
abbrev NvBlock := ℕ → UInt8

/-- What `block_erase` leaves. -/
def nvErased : NvBlock := fun _ => 0xFF

/-- `buffer` in `prvSaveRegCfgToFs` and `prvSaveRegInfoToRom`. -/
def nvBuffer (data : List UInt8) : List UInt8 :=
  uint32Bytes cfgMagic ++ (data ++
    (uint16Bytes (dasCrc16 data) ++ List.replicate (250 - data.length) 0))

/-- The data of a length in a block with the magic and the checksum. -/
def nvData (n : ℕ) (block : NvBlock) : Option (List UInt8) :=
  let data := (List.range n).map fun i => block (4 + i)
  if readUInt32 block 0 = cfgMagic ∧ dasCrc16 data = readUInt16 block (4 + n) then some data else none

/-- The blocks at `KEY_INFO_OFFSET` and `REG_INFO_OFFSET`. -/
structure RegFlash where
  keyBlock : NvBlock
  infoBlock : NvBlock

/-- What is done to the flash: `block_erase` and `block_write` at either place. -/
inductive NvOp
  | eraseKey
  | writeKey (data : List UInt8)
  | eraseInfo
  | writeInfo (data : List UInt8)

/-- An operation. -/
def NvOp.apply (flash : RegFlash) : NvOp → RegFlash
  | eraseKey => { flash with keyBlock := nvErased }
  | writeKey data => { flash with keyBlock := copyOver flash.keyBlock 0 (nvBuffer data) }
  | eraseInfo => { flash with infoBlock := nvErased }
  | writeInfo data => { flash with infoBlock := copyOver flash.infoBlock 0 (nvBuffer data) }

/-- Operations one after the other. -/
def nvApply (flash : RegFlash) (ops : List NvOp) : RegFlash := ops.foldl NvOp.apply flash

/-- `prvSaveRegCfgToFs` -/
def prvSaveRegCfgToFs (reg : RegT) : List NvOp := [.eraseKey, .writeKey reg.bytes]

/-- `prvSaveRegInfoToRom` -/
def prvSaveRegInfoToRom (info : RegInfo) : List NvOp := [.eraseInfo, .writeInfo info.bytes]

end Flash

/-- What is given: the number of the chip, the stack, the registration that an earlier version has left
in the configuration, and whether the device is in its test mode. -/
structure RegEnv where
  id : Option UInt64
  stack : RegStack
  cfg : Option RegT
  testMode : Bool

/-- `g_reg`, `g_reg_info`, `g_regid`, `g_isreg` and `g_istestover_poweron`. -/
structure RegRam where
  reg : RegT
  info : RegInfo
  regid : List UInt8
  isreg : Bool
  istestoverPoweron : Bool

section Operations

variable (env : RegEnv)

/-- `prvReadRegInfoFromRom` -/
def prvReadRegInfoFromRom (flash : RegFlash) : RegInfo :=
  (nvData 8 flash.infoBlock).elim ⟨0, regDefRandomcode⟩ fun data =>
    ⟨(RegInfo.ofBytes data).testTime, regDefRandomcode⟩

/-- `prvReadRegFromFs`: what is read, and what is done to the flash. -/
def prvReadRegFromFs (flash : RegFlash) : RegT × List NvOp :=
  (nvData 136 flash.keyBlock).elim
    (env.cfg.elim (cRegDefault, []) fun reg => (reg, prvSaveRegCfgToFs reg))
    fun data => (RegT.ofBytes data, [])

/-- `reg_testover` -/
def regTestover (info : RegInfo) : Bool := decide (regTestOverTime ≤ info.testTime)

/-- `reg_init` -/
def regInit (flash : RegFlash) : Option (List NvOp × RegRam) :=
  let info := prvReadRegInfoFromRom flash
  let read := prvReadRegFromFs env flash
  (regRegetid (sysGetUuid env.id) info.code).bind fun regid =>
    (regCheck env.stack regid read.1.text).map fun isreg =>
      (read.2, ⟨read.1, info, regid, isreg, !isreg && regTestover info⟩)

/-- `reg_reg`, which keeps the key with `strncpy`. -/
def regReg (ram : RegRam) (key : List UInt8) (now : UInt32) : Option (List NvOp × RegRam) :=
  (regCheck env.stack ram.regid key).map fun isreg =>
    let reg :=
      if isreg then { ram.reg with key := Vector.ofFn fun i => key.getD i.val 0, regTime := now }
      else cRegDefault
    (prvSaveRegCfgToFs reg, { ram with reg := reg, isreg := isreg })

/-- `reg_testdo` -/
def regTestdo (info : RegInfo) (sec : UInt32) : List NvOp × RegInfo :=
  if regTestover info then ([], info)
  else
    let info := { info with testTime := info.testTime + sec }
    (prvSaveRegInfoToRom info, info)

/-- What the idle thread does when `ms` milliseconds are over; with the trial it starts the device
anew. -/
def regIdle (flash : RegFlash) (ram : RegRam) (ms : UInt32) : Option (List NvOp × RegRam) :=
  if ram.isreg then some ([], ram)
  else
    let done := regTestdo ram.info (ms / 1000)
    let ram := { ram with info := done.2 }
    if regTestover ram.info && !env.testMode && !ram.istestoverPoweron then
      (regInit env (nvApply flash done.1)).map fun started => (done.1 ++ started.1, started.2)
    else some (done.1, ram)

end Operations


section Runs

/-- What happens: the device starts, a key is entered at a time, or the idle thread counts. -/
inductive RegOp
  | restart
  | doreg (key : List UInt8) (now : UInt32)
  | idle (ms : UInt32)

/-- The flash and the memory of a device that runs. -/
structure RegState where
  flash : RegFlash
  ram : RegRam

variable (env : RegEnv)

/-- What an operation does to the flash, and the memory behind it. -/
def regOp (s : RegState) : RegOp → Option (List NvOp × RegRam)
  | .restart => regInit env s.flash
  | .doreg key now => regReg env s.ram key now
  | .idle ms => regIdle env s.flash s.ram ms

/-- A device starts on a flash. -/
def regPowerOn (flash : RegFlash) : Option RegState :=
  (regInit env flash).map fun started => ⟨nvApply flash started.1, started.2⟩

/-- An operation; with a number, the power is lost when so many operations on the flash are done. -/
def regStep (s : RegState) (event : RegOp × Option ℕ) : Option RegState :=
  (regOp env s event.1).bind fun done =>
    match event.2 with
    | none => some ⟨nvApply s.flash done.1, done.2⟩
    | some cut => regPowerOn env (nvApply s.flash (done.1.take cut))

/-- Operations one after the other. -/
def regRun (s : RegState) (events : List (RegOp × Option ℕ)) : Option RegState :=
  events.foldlM (regStep env) s

/-- The key that the device takes. -/
def regDeviceKey : List UInt8 :=
  ((regRegetid (sysGetUuid env.id) regDefRandomcode).bind (regKeyText env.stack)).getD []

end Runs

section Blocks

/-- What is written over an erased block is read. -/
theorem nvData_nvBuffer {n : ℕ} {data : List UInt8} (h : data.length = n) :
    nvData n (copyOver nvErased 0 (nvBuffer data)) = some data := by
  have hshows := showsAt_copyOver nvErased 0 (nvBuffer data)
  rw [nvBuffer, showsAt_append, showsAt_append, showsAt_append] at hshows
  obtain ⟨hmagic, hdata, hcheck, -⟩ := hshows
  have hread : (List.range n).map (fun i => copyOver nvErased 0 (nvBuffer data) (4 + i)) = data := by
    rw [← h]
    exact hdata.map_range
  have hsum : dasCrc16 data = readUInt16 (copyOver nvErased 0 (nvBuffer data)) (4 + n) := by
    rw [← h]
    exact ((uint16_eq_iff _ _ _).mpr hcheck).symm
  rw [nvData, hread]
  exact if_pos ⟨(readUInt32_eq_iff _ _ _).mpr hmagic, hsum⟩

/-- Nothing is read of an erased block. -/
theorem nvData_nvErased (n : ℕ) : nvData n nvErased = none := by
  have hmagic : readUInt32 nvErased 0 ≠ cfgMagic := by decide
  rw [nvData]
  exact if_neg fun h => hmagic h.1

/-- The trial time and the code come back. -/
theorem RegInfo.ofBytes_bytes (info : RegInfo) : RegInfo.ofBytes info.bytes = info := by
  have hshows := showsAt_getD info.bytes 0
  rw [RegInfo.bytes, showsAt_append] at hshows
  obtain ⟨testTime, code⟩ := info
  rw [RegInfo.ofBytes, RegInfo.mk.injEq]
  exact ⟨(readUInt32_eq_iff _ _ _).mpr hshows.1, (readUInt32_eq_iff _ _ _).mpr hshows.2⟩

/-- The key and its time come back. -/
theorem RegT.ofBytes_bytes (reg : RegT) : RegT.ofBytes reg.bytes = reg := by
  have hshows := showsAt_getD reg.bytes 0
  rw [RegT.bytes, showsAt_append, showsAt_append] at hshows
  obtain ⟨hkey, hpadding, htime⟩ := hshows
  obtain ⟨key, padding, regTime⟩ := reg
  rw [Vector.length_toList] at hpadding
  rw [Vector.length_toList, Vector.length_toList] at htime
  rw [RegT.ofBytes, RegT.mk.injEq]
  refine ⟨Vector.ext fun i hi => ?_, Vector.ext fun i hi => ?_, (readUInt32_eq_iff _ _ _).mpr htime⟩
  · rw [Vector.getElem_ofFn]
    have hbyte := hkey i (by rw [Vector.length_toList]; exact hi)
    rw [Nat.zero_add, Vector.getElem_toList] at hbyte
    exact hbyte
  · rw [Vector.getElem_ofFn]
    have hbyte := hpadding i (by rw [Vector.length_toList]; exact hi)
    rw [Nat.zero_add, Vector.getElem_toList] at hbyte
    exact hbyte

end Blocks

section Starts

variable (env : RegEnv)

/-- The identity of the device, and the one key that is taken for it. -/
theorem regDevice : ∃ id, regRegetid (sysGetUuid env.id) regDefRandomcode = some id ∧
    (40 ≤ (regDeviceKey env).length ∧ (regDeviceKey env).length ≤ 80) ∧ (0 : UInt8) ∉ regDeviceKey env ∧
    ∀ key, regCheck env.stack id key = some (decide (key = regDeviceKey env)) := by
  obtain ⟨-, -, id, hid, hlength, -⟩ := regRegetid_stages (sysGetUuid env.id) regDefRandomcode
  obtain ⟨text, htext, hzero, hkey⟩ := regKeyText_eq hlength
  have hdevice : regDeviceKey env = text := by
    rw [regDeviceKey, hid, Option.bind_some, hkey, Option.getD_some]
  rw [hdevice]
  exact ⟨id, hid, htext, hzero, fun key => regCheck_of_keyText (hkey env.stack) htext.1 key⟩

/-- The code is always the same. -/
theorem prvReadRegInfoFromRom_code (flash : RegFlash) :
    (prvReadRegInfoFromRom flash).code = regDefRandomcode := by
  rw [prvReadRegInfoFromRom]
  cases nvData 8 flash.infoBlock <;> rfl

/-- The memory of a device and its flash agree: what a start would read is there, and the device is
registered when the key is its own. -/
structure RegHolds (s : RegState) : Prop where
  reg : ∃ ops, prvReadRegFromFs env s.flash = (s.ram.reg, ops)
  info : prvReadRegInfoFromRom s.flash = s.ram.info
  regid : regRegetid (sysGetUuid env.id) regDefRandomcode = some s.ram.regid
  isreg : s.ram.isreg = decide (s.ram.reg.text = regDeviceKey env)

/-- What saving a registration leaves. -/
theorem keyBlock_prvSaveRegCfgToFs (flash : RegFlash) (reg : RegT) :
    (nvApply flash (prvSaveRegCfgToFs reg)).keyBlock = copyOver nvErased 0 (nvBuffer reg.bytes) := rfl

/-- What saving the trial time leaves. -/
theorem infoBlock_prvSaveRegInfoToRom (flash : RegFlash) (info : RegInfo) :
    (nvApply flash (prvSaveRegInfoToRom info)).infoBlock =
      copyOver nvErased 0 (nvBuffer info.bytes) := rfl

/-- A registration that was saved is read, whatever was there. -/
theorem prvReadRegFromFs_saved (flash : RegFlash) (reg : RegT) :
    prvReadRegFromFs env (nvApply flash (prvSaveRegCfgToFs reg)) = (reg, []) := by
  have hlength : reg.bytes.length = 136 := by
    rw [RegT.bytes, List.length_append, List.length_append, Vector.length_toList, Vector.length_toList]
    rfl
  rw [prvReadRegFromFs, keyBlock_prvSaveRegCfgToFs, nvData_nvBuffer hlength, Option.elim_some,
    reg.ofBytes_bytes]

/-- A trial time that was saved is read, whatever was there. -/
theorem prvReadRegInfoFromRom_saved (flash : RegFlash) {info : RegInfo}
    (h : info.code = regDefRandomcode) :
    prvReadRegInfoFromRom (nvApply flash (prvSaveRegInfoToRom info)) = info := by
  rw [prvReadRegInfoFromRom, infoBlock_prvSaveRegInfoToRom,
    nvData_nvBuffer (show info.bytes.length = 8 from rfl),
    Option.elim_some, info.ofBytes_bytes, ← h]

/-- Only the operations at a place change its block. -/
theorem prvReadRegInfoFromRom_congr {flash flash' : RegFlash} (h : flash.infoBlock = flash'.infoBlock) :
    prvReadRegInfoFromRom flash = prvReadRegInfoFromRom flash' := by
  rw [prvReadRegInfoFromRom, prvReadRegInfoFromRom, h]

/-- Only the operations at a place change its block. -/
theorem prvReadRegFromFs_congr {flash flash' : RegFlash} (h : flash.keyBlock = flash'.keyBlock) :
    prvReadRegFromFs env flash = prvReadRegFromFs env flash' := by
  rw [prvReadRegFromFs, prvReadRegFromFs, h]

/-- What a start reads for the registration, and what it saves. -/
theorem prvReadRegFromFs_cases (flash : RegFlash) : ∃ reg ops, prvReadRegFromFs env flash = (reg, ops) ∧
    (ops = [] ∨ ops = prvSaveRegCfgToFs reg) := by
  rw [prvReadRegFromFs]
  cases nvData 136 flash.keyBlock with
  | some data => exact ⟨_, _, rfl, Or.inl rfl⟩
  | none =>
    cases env.cfg with
    | none => exact ⟨_, _, rfl, Or.inl rfl⟩
    | some reg => exact ⟨reg, _, rfl, Or.inr rfl⟩

/-- What a start does, by what it reads. -/
theorem regInit_eq {flash : RegFlash} {reg : RegT} {ops : List NvOp} {info : RegInfo} {id : List UInt8}
    {isreg : Bool} (hread : prvReadRegFromFs env flash = (reg, ops))
    (hinfo : prvReadRegInfoFromRom flash = info)
    (hid : regRegetid (sysGetUuid env.id) info.code = some id)
    (hkey : regCheck env.stack id reg.text = some isreg) :
    regInit env flash = some (ops, ⟨reg, info, id, isreg, !isreg && regTestover info⟩) := by
  have hinit : regInit env flash =
      (regRegetid (sysGetUuid env.id) (prvReadRegInfoFromRom flash).code).bind fun regid =>
        (regCheck env.stack regid (prvReadRegFromFs env flash).1.text).map fun isreg =>
          ((prvReadRegFromFs env flash).2,
            ⟨(prvReadRegFromFs env flash).1, prvReadRegInfoFromRom flash, regid,
            isreg, !isreg && regTestover (prvReadRegInfoFromRom flash)⟩) := rfl
  rw [hinit, hread, hinfo, hid, Option.bind_some, hkey, Option.map_some]

/-- A device starts on every flash, its memory then agrees with it, and nothing of the trial time is
changed. -/
theorem regInit_holds (flash : RegFlash) : ∃ ops ram, regInit env flash = some (ops, ram) ∧
    RegHolds env ⟨nvApply flash ops, ram⟩ ∧ (ops = [] ∨ ops = prvSaveRegCfgToFs ram.reg) ∧
    (∃ saved, prvReadRegFromFs env flash = (ram.reg, saved)) ∧
      ram.info = prvReadRegInfoFromRom flash := by
  obtain ⟨id, hid, -, -, hkey⟩ := regDevice env
  obtain ⟨reg, ops, hread, hops⟩ := prvReadRegFromFs_cases env flash
  obtain ⟨info, hinfo⟩ : ∃ info, prvReadRegInfoFromRom flash = info := ⟨_, rfl⟩
  have hcode : info.code = regDefRandomcode := by rw [← hinfo, prvReadRegInfoFromRom_code]
  have hinit := regInit_eq env hread hinfo (by rw [hcode]; exact hid) (hkey reg.text)
  refine ⟨_, _, hinit, ⟨?_, ?_, hid, rfl⟩, hops, ⟨ops, hread⟩, hinfo.symm⟩
  · rcases hops with rfl | rfl
    · exact ⟨_, hread⟩
    · exact ⟨_, prvReadRegFromFs_saved env flash reg⟩
  · rcases hops with rfl | rfl
    · exact hinfo
    · exact hinfo

end Starts


section Steps

variable (env : RegEnv)

/-- The text of a key that was kept. -/
theorem text_kept {key : List UInt8} (hlength : key.length < 129) (hzero : (0 : UInt8) ∉ key)
    (reg : RegT) (now : UInt32) :
    ({ reg with key := Vector.ofFn fun i => key.getD i.val 0, regTime := now } : RegT).text = key := by
  have hbytes : (Vector.ofFn fun i : Fin 129 => key.getD i.val 0).toList =
      key ++ List.replicate (129 - key.length) 0 := by
    refine List.ext_getElem ?_ fun i hi _ => ?_
    · rw [Vector.length_toList, List.length_append, List.length_replicate]
      omega
    · rw [Vector.length_toList] at hi
      rw [Vector.getElem_toList, Vector.getElem_ofFn]
      rcases Nat.lt_or_ge i key.length with hlt | hge
      · rw [List.getElem_append_left hlt, List.getD_eq_getElem _ _ hlt]
      · rw [List.getElem_append_right hge, List.getD_eq_default _ _ hge, List.getElem_replicate]
  have hkeep : ∀ c ∈ key, decide (c ≠ 0) = true := fun c hc =>
    decide_eq_true fun h => hzero (h ▸ hc)
  rw [RegT.text]
  show (Vector.ofFn fun i : Fin 129 => key.getD i.val 0).toList.takeWhile _ = key
  rw [hbytes, List.takeWhile_append_of_pos hkeep, show 129 - key.length = 128 - key.length + 1 by omega,
    List.replicate_succ, List.takeWhile_cons_of_neg (by decide), List.append_nil]

/-- Nothing is in the key at first. -/
theorem text_cRegDefault : cRegDefault.text = [] := rfl

/-- No key is empty. -/
theorem regDeviceKey_ne_nil : regDeviceKey env ≠ [] := by
  obtain ⟨-, -, ⟨hlow, -⟩, -⟩ := regDevice env
  intro h
  rw [h, List.length_nil] at hlow
  omega

/-- The trial time is counted. -/
def RegCounts (s : RegState) (op : RegOp) : Prop :=
  (∃ ms, op = .idle ms) ∧ s.ram.isreg = false ∧ regTestover s.ram.info = false

/-- What is done to the flash for the trial time, and what for the key. -/
structure RegWrites (s : RegState) (op : RegOp) (infoOps keyOps : List NvOp) (ram : RegRam) : Prop where
  done : regOp env s op = some (infoOps ++ keyOps, ram)
  holds : RegHolds env ⟨nvApply s.flash (infoOps ++ keyOps), ram⟩
  key : keyOps = [] ∨ keyOps = prvSaveRegCfgToFs ram.reg
  info : (infoOps = [] ∧ ram.info = s.ram.info ∧ ¬ RegCounts s op) ∨
    (infoOps = prvSaveRegInfoToRom ram.info ∧ RegCounts s op ∧
      ∃ ms : UInt32, ram.info.testTime = s.ram.info.testTime + ms / 1000)
  entered : ∀ key now, op = .doreg key now → ram.isreg = decide (key = regDeviceKey env)
  kept : (∀ key now, op ≠ .doreg key now) → ram.reg = s.ram.reg ∧ ram.isreg = s.ram.isreg

/-- The identity does not change. -/
theorem RegHolds.code {s : RegState} (h : RegHolds env s) : s.ram.info.code = regDefRandomcode := by
  rw [← h.info, prvReadRegInfoFromRom_code]

/-- A start of a device whose memory and flash agree. -/
theorem regWrites_restart {flash : RegFlash} {ram : RegRam} (h : RegHolds env ⟨flash, ram⟩) :
    ∃ keyOps ram', regInit env flash = some (keyOps, ram') ∧ RegHolds env ⟨nvApply flash keyOps, ram'⟩ ∧
      (keyOps = [] ∨ keyOps = prvSaveRegCfgToFs ram'.reg) ∧ ram'.info = ram.info ∧ ram'.reg = ram.reg ∧
      ram'.isreg = ram.isreg ∧ ram'.regid = ram.regid := by
  obtain ⟨ops, ram', hinit, hholds, hops, ⟨saved, hread⟩, hinfo⟩ := regInit_holds env flash
  obtain ⟨saved', hreg⟩ := h.reg
  have hsame : ram'.reg = ram.reg := by
    rw [hread] at hreg
    exact congrArg Prod.fst hreg
  refine ⟨ops, ram', hinit, hholds, hops, hinfo.trans h.info, hsame, ?_, ?_⟩
  · rw [hholds.isreg, h.isreg, hsame]
  · exact Option.some.inj (hholds.regid.symm.trans h.regid)

/-- What entering a key does. -/
theorem regWrites_doreg {s : RegState} (h : RegHolds env s) (key : List UInt8) (now : UInt32) :
    ∃ keyOps ram, RegWrites env s (.doreg key now) [] keyOps ram := by
  obtain ⟨id, hid, ⟨-, hhigh⟩, hzero, hcheck⟩ := regDevice env
  obtain rfl : id = s.ram.regid := Option.some.inj (hid.symm.trans h.regid)
  have hinfo : ∀ reg, prvReadRegInfoFromRom (nvApply s.flash (prvSaveRegCfgToFs reg)) = s.ram.info :=
    fun reg => h.info
  obtain ⟨reg, hreg, htext⟩ : ∃ reg : RegT,
      (if decide (key = regDeviceKey env) = true then
        { s.ram.reg with key := Vector.ofFn fun i => key.getD i.val 0, regTime := now }
        else cRegDefault) = reg ∧
      decide (key = regDeviceKey env) = decide (reg.text = regDeviceKey env) := by
    refine ⟨_, rfl, ?_⟩
    by_cases hkey : key = regDeviceKey env
    · rw [if_pos (decide_eq_true hkey), text_kept (by rw [hkey]; omega) (by rw [hkey]; exact hzero)]
    · rw [if_neg (by rw [decide_eq_true_eq]; exact hkey), decide_eq_false hkey,
        decide_eq_false (by rw [text_cRegDefault]; exact (regDeviceKey_ne_nil env).symm)]
  have hdone : regOp env s (.doreg key now) = some ([] ++ prvSaveRegCfgToFs reg,
      { s.ram with reg := reg, isreg := decide (key = regDeviceKey env) }) := by
    rw [regOp, regReg, hcheck key, Option.map_some, hreg, List.nil_append]
  have hcounts : ¬ RegCounts s (.doreg key now) := fun hcounts => by
    obtain ⟨ms, heq⟩ := hcounts.1
    cases heq
  refine ⟨prvSaveRegCfgToFs reg, _, hdone, ⟨?_, hinfo reg, hid, htext⟩, Or.inr rfl,
    Or.inl ⟨rfl, rfl, hcounts⟩, ?_, ?_⟩
  · rw [List.nil_append]
    exact ⟨[], prvReadRegFromFs_saved env s.flash reg⟩
  · rintro key' now' heq
    obtain ⟨rfl, -⟩ := RegOp.doreg.inj heq
    rfl
  · exact fun hne => absurd rfl (hne key now)

/-- What counting does, in memory and in the flash. -/
theorem regTestdo_holds {flash : RegFlash} {ram : RegRam} (h : RegHolds env ⟨flash, ram⟩)
    (sec : UInt32) :
    ∃ infoOps info, regTestdo ram.info sec = (infoOps, info) ∧
      RegHolds env ⟨nvApply flash infoOps, { ram with info := info }⟩ ∧
      ((infoOps = [] ∧ info = ram.info ∧ regTestover ram.info = true) ∨
        (infoOps = prvSaveRegInfoToRom info ∧ regTestover ram.info = false ∧
          info.testTime = ram.info.testTime + sec)) := by
  rw [regTestdo]
  by_cases hover : regTestover ram.info = true
  · rw [if_pos hover]
    exact ⟨[], ram.info, rfl, h, Or.inl ⟨rfl, rfl, hover⟩⟩
  · rw [if_neg hover]
    refine ⟨_, _, rfl, ⟨h.reg, ?_, h.regid, h.isreg⟩, Or.inr ⟨rfl, Bool.eq_false_iff.mpr hover, rfl⟩⟩
    exact prvReadRegInfoFromRom_saved flash (RegHolds.code env h)

/-- Operations behind others. -/
theorem nvApply_append (flash : RegFlash) (ops more : List NvOp) :
    nvApply flash (ops ++ more) = nvApply (nvApply flash ops) more := List.foldl_append

/-- What the idle thread does. -/
theorem regWrites_idle {s : RegState} (h : RegHolds env s) (ms : UInt32) :
    ∃ infoOps keyOps ram, RegWrites env s (.idle ms) infoOps keyOps ram := by
  obtain ⟨flash, ram₀⟩ := s
  have hne : ∀ key now, RegOp.idle ms ≠ .doreg key now := fun _ _ heq => by cases heq
  by_cases hreg : ram₀.isreg = true
  · have hdone : regOp env ⟨flash, ram₀⟩ (.idle ms) = some ([] ++ [], ram₀) := by
      rw [regOp, regIdle, if_pos hreg, List.nil_append]
    exact ⟨[], [], ram₀, hdone, h, Or.inl rfl,
      Or.inl ⟨rfl, rfl, fun hcounts => Bool.false_ne_true (hcounts.2.1.symm.trans hreg)⟩,
      fun key now heq => absurd heq (hne key now), fun _ => ⟨rfl, rfl⟩⟩
  obtain ⟨infoOps, info, htestdo, hholds, hinfo⟩ :=
    regTestdo_holds env h (ms / 1000)
  have hidle : regOp env ⟨flash, ram₀⟩ (.idle ms) =
      if regTestover info && !env.testMode && !ram₀.istestoverPoweron then
        (regInit env (nvApply flash infoOps)).map fun started => (infoOps ++ started.1, started.2)
      else some (infoOps, { ram₀ with info := info }) := by
    rw [regOp, regIdle, if_neg hreg, htestdo]
  obtain ⟨keyOps, ram, hdone, hnext, hkey, hsame⟩ : ∃ keyOps ram,
      regOp env ⟨flash, ram₀⟩ (.idle ms) = some (infoOps ++ keyOps, ram) ∧
      RegHolds env ⟨nvApply flash (infoOps ++ keyOps), ram⟩ ∧
      (keyOps = [] ∨ keyOps = prvSaveRegCfgToFs ram.reg) ∧
      ram.info = info ∧ ram.reg = ram₀.reg ∧ ram.isreg = ram₀.isreg := by
    rw [hidle]
    by_cases hover : (regTestover info && !env.testMode && !ram₀.istestoverPoweron) = true
    · obtain ⟨keyOps, ram, hinit, hstart, hkey, hsame, hsameReg, hsameIsreg, -⟩ :=
        regWrites_restart env hholds
      rw [if_pos hover, hinit, Option.map_some]
      refine ⟨keyOps, ram, rfl, ?_, hkey, hsame, hsameReg, hsameIsreg⟩
      rw [nvApply_append]
      exact hstart
    · rw [if_neg hover]
      refine ⟨[], { ram₀ with info := info }, by rw [List.append_nil], ?_, Or.inl rfl, rfl, rfl, rfl⟩
      rw [List.append_nil]
      exact hholds
  refine ⟨infoOps, keyOps, ram, hdone, hnext, hkey, ?_, fun key now heq => absurd heq (hne key now),
    fun _ => hsame.2⟩
  rcases hinfo with ⟨hnone, hstays, hover⟩ | ⟨hsave, hnotover, htime⟩
  · exact Or.inl ⟨hnone, hsame.1.trans hstays,
      fun hcounts => Bool.false_ne_true (hcounts.2.2.symm.trans hover)⟩
  · exact Or.inr ⟨by rw [hsame.1]; exact hsave, ⟨⟨ms, rfl⟩, Bool.eq_false_iff.mpr hreg, hnotover⟩, ms,
      by rw [hsame.1]; exact htime⟩

/-- What every operation does. -/
theorem regWrites_op {s : RegState} (h : RegHolds env s) (op : RegOp) :
    ∃ infoOps keyOps ram, RegWrites env s op infoOps keyOps ram := by
  cases op with
  | restart =>
    obtain ⟨keyOps, ram, hinit, hholds, hkey, hinfo, hreg, hisreg, -⟩ := regWrites_restart env h
    have hcounts : ¬ RegCounts s .restart := fun hcounts => by
      obtain ⟨ms, heq⟩ := hcounts.1
      cases heq
    exact ⟨[], keyOps, ram, hinit, hholds, hkey, Or.inl ⟨rfl, hinfo, hcounts⟩,
      (fun _ _ heq => by cases heq), fun _ => ⟨hreg, hisreg⟩⟩
  | doreg key now =>
    obtain ⟨keyOps, ram, hwrites⟩ := regWrites_doreg env h key now
    exact ⟨[], keyOps, ram, hwrites⟩
  | idle ms => exact regWrites_idle env h ms

/-- A device starts with its memory and its flash in agreement. -/
theorem regPowerOn_holds (flash : RegFlash) : ∃ s, regPowerOn env flash = some s ∧ RegHolds env s ∧
    (∃ saved, prvReadRegFromFs env flash = (s.ram.reg, saved)) ∧
    s.ram.info = prvReadRegInfoFromRom flash := by
  obtain ⟨ops, ram, hinit, hholds, -, hread, hinfo⟩ := regInit_holds env flash
  exact ⟨_, by rw [regPowerOn, hinit, Option.map_some], hholds, hread, hinfo⟩

/-- An operation keeps memory and flash in agreement, wherever the power is lost. -/
theorem regStep_holds {s : RegState} (h : RegHolds env s) (event : RegOp × Option ℕ) :
    ∃ s', regStep env s event = some s' ∧ RegHolds env s' := by
  obtain ⟨infoOps, keyOps, ram, hwrites⟩ := regWrites_op env h event.1
  rw [regStep, hwrites.done, Option.bind_some]
  cases event.2 with
  | none => exact ⟨_, rfl, hwrites.holds⟩
  | some cut =>
    obtain ⟨s', hstart, hholds, -⟩ :=
      regPowerOn_holds env (nvApply s.flash ((infoOps ++ keyOps).take cut))
    exact ⟨s', hstart, hholds⟩

/-- So does a run. -/
theorem regRun_holds {s : RegState} (h : RegHolds env s) (events : List (RegOp × Option ℕ)) :
    ∃ s', regRun env s events = some s' ∧ RegHolds env s' := by
  induction events generalizing s with
  | nil => exact ⟨s, rfl, h⟩
  | cons event events ih =>
    obtain ⟨next, hnext, hholds⟩ := regStep_holds env h event
    obtain ⟨s', hrest, hlast⟩ := ih hholds
    refine ⟨s', ?_, hlast⟩
    rw [regRun, List.foldlM_cons, hnext]
    exact hrest

end Steps


section Cuts

variable (env : RegEnv)

/-- A start that is cut leaves the block of the trial time. -/
theorem infoBlock_take {keyOps : List NvOp} {reg : RegT}
    (h : keyOps = [] ∨ keyOps = prvSaveRegCfgToFs reg)
    (flash : RegFlash) (k : ℕ) : (nvApply flash (keyOps.take k)).infoBlock = flash.infoBlock := by
  rcases h with rfl | rfl
  · rw [List.take_nil]
    rfl
  · match k with
    | 0 => rfl
    | 1 => rfl
    | k + 2 =>
      rw [prvSaveRegCfgToFs, List.take_succ_cons, List.take_succ_cons, List.take_nil]
      rfl

/-- Counting that is cut leaves the block of the key. -/
theorem keyBlock_take {infoOps : List NvOp} {info : RegInfo}
    (h : infoOps = [] ∨ infoOps = prvSaveRegInfoToRom info) (flash : RegFlash) (k : ℕ) :
    (nvApply flash (infoOps.take k)).keyBlock = flash.keyBlock := by
  rcases h with rfl | rfl
  · rw [List.take_nil]
    rfl
  · match k with
    | 0 => rfl
    | 1 => rfl
    | k + 2 =>
      rw [prvSaveRegInfoToRom, List.take_succ_cons, List.take_succ_cons, List.take_nil]
      rfl

/-- What a start reads for the trial time when the power was lost at a number of operations. -/
theorem prvReadRegInfoFromRom_take {keyOps : List NvOp} {reg : RegT}
    (hkey : keyOps = [] ∨ keyOps = prvSaveRegCfgToFs reg) {info : RegInfo}
    (hcode : info.code = regDefRandomcode)
    (flash : RegFlash) (k : ℕ) :
    prvReadRegInfoFromRom (nvApply flash ((prvSaveRegInfoToRom info ++ keyOps).take k)) =
      if k = 0 then prvReadRegInfoFromRom flash else if k = 1 then ⟨0, regDefRandomcode⟩ else info := by
  match k with
  | 0 =>
    have hsame : nvApply flash [] = flash := rfl
    rw [List.take_zero, if_pos rfl, hsame]
  | 1 =>
    have hblock : (nvApply flash ((prvSaveRegInfoToRom info ++ keyOps).take 1)).infoBlock =
      nvErased := rfl
    rw [if_neg Nat.one_ne_zero, if_pos rfl, prvReadRegInfoFromRom, hblock, nvData_nvErased,
      Option.elim_none]
  | k + 2 =>
    have htake : (prvSaveRegInfoToRom info ++ keyOps).take (k + 2) =
        prvSaveRegInfoToRom info ++ keyOps.take k := by
      rw [prvSaveRegInfoToRom, List.cons_append, List.cons_append, List.nil_append, List.take_succ_cons,
        List.take_succ_cons]
      rfl
    rw [if_neg (by omega), if_neg (by omega), htake, nvApply_append,
      prvReadRegInfoFromRom_congr (infoBlock_take hkey _ k), prvReadRegInfoFromRom_saved _ hcode]

/-- What becomes of the trial time: it is counted, or lost between the erasing and the writing, or
left as it is. -/
theorem regStep_info {s s' : RegState} {op : RegOp} {cut : Option ℕ} (h : RegHolds env s)
    (hstep : regStep env s (op, cut) = some s') :
    (¬ RegCounts s op ∧ s'.ram.info = s.ram.info) ∨
      (RegCounts s op ∧ ((cut = some 0 ∧ s'.ram.info = s.ram.info) ∨
        (cut = some 1 ∧ s'.ram.info.testTime = 0) ∨
        (cut ≠ some 1 ∧ ∃ ms : UInt32, s'.ram.info.testTime = s.ram.info.testTime + ms / 1000))) := by
  obtain ⟨infoOps, keyOps, ram, hwrites⟩ := regWrites_op env h op
  rw [regStep, hwrites.done, Option.bind_some] at hstep
  cases cut with
  | none =>
    obtain rfl := Option.some.inj hstep
    rcases hwrites.info with ⟨-, hinfo, hcounts⟩ | ⟨-, hcounts, ms, htime⟩
    · exact Or.inl ⟨hcounts, hinfo⟩
    · exact Or.inr ⟨hcounts, Or.inr (Or.inr ⟨(fun heq => by cases heq), ms, htime⟩)⟩
  | some cut =>
    obtain ⟨started, hstart, -, -, hread⟩ :=
      regPowerOn_holds env (nvApply s.flash ((infoOps ++ keyOps).take cut))
    obtain rfl := Option.some.inj (hstart.symm.trans hstep)
    rcases hwrites.info with ⟨rfl, -, hcounts⟩ | ⟨rfl, hcounts, ms, htime⟩
    · refine Or.inl ⟨hcounts, ?_⟩
      rw [hread, List.nil_append,
        prvReadRegInfoFromRom_congr (infoBlock_take hwrites.key s.flash cut), h.info]
    · refine Or.inr ⟨hcounts, ?_⟩
      rw [prvReadRegInfoFromRom_take hwrites.key (RegHolds.code env hwrites.holds)] at hread
      by_cases hzero : cut = 0
      · rw [if_pos hzero, h.info] at hread
        exact Or.inl ⟨by rw [hzero], hread⟩
      by_cases hone : cut = 1
      · rw [if_neg hzero, if_pos hone] at hread
        exact Or.inr (Or.inl ⟨by rw [hone], by rw [hread]⟩)
      · rw [if_neg hzero, if_neg hone] at hread
        exact Or.inr (Or.inr ⟨fun heq => hone (Option.some.inj heq), ms, by rw [hread, htime]⟩)

/-- The trial time goes back only when the power is lost between the erasing and the writing of its
block. -/
theorem regStep_time_lt_iff {s s' : RegState} {op : RegOp} {cut : Option ℕ} (h : RegHolds env s)
    (hstep : regStep env s (op, cut) = some s') :
    s'.ram.info.testTime < s.ram.info.testTime ↔
      cut = some 1 ∧ RegCounts s op ∧ s.ram.info.testTime ≠ 0 := by
  rcases regStep_info env h hstep
    with ⟨hcounts, hinfo⟩ | ⟨hcounts, ⟨rfl, hinfo⟩ | ⟨rfl, htime⟩ | ⟨hcut, ms, htime⟩⟩
  · rw [hinfo]
    exact ⟨fun hlt => absurd hlt (UInt32.lt_irrefl _), fun hcut => absurd hcut.2.1 hcounts⟩
  · rw [hinfo]
    exact ⟨fun hlt => absurd hlt (UInt32.lt_irrefl _), fun hcut => absurd hcut.1 (by decide)⟩
  · rw [htime]
    refine ⟨fun hlt => ⟨rfl, hcounts, fun hzero => ?_⟩, fun hcut => UInt32.pos_iff_ne_zero.mpr hcut.2.2⟩
    rw [hzero] at hlt
    exact absurd hlt (UInt32.lt_irrefl _)
  · -- The limit leaves room for the longest time that is counted at once.
    have hover : s.ram.info.testTime.toNat < 7776000 := by
      have hnot := of_decide_eq_false hcounts.2.2
      rw [UInt32.le_iff_toNat_le] at hnot
      exact Nat.not_le.mp hnot
    have hms := ms.toNat_lt
    have hsum : (s.ram.info.testTime + ms / 1000).toNat = s.ram.info.testTime.toNat +
        ms.toNat / 1000 := by
      rw [UInt32.toNat_add, UInt32.toNat_div, show (1000 : UInt32).toNat = 1000 from rfl]
      omega
    refine ⟨fun hlt => ?_, fun hlost => absurd hlost.1 hcut⟩
    rw [htime, UInt32.lt_iff_toNat_lt, hsum] at hlt
    omega

/-- Whatever a start reads for the registration is not the key of the device. -/
def RegUnkeyed (flash : RegFlash) : Prop :=
  ∀ reg ops, prvReadRegFromFs env flash = (reg, ops) → reg.text ≠ regDeviceKey env

/-- Nothing of it comes from an earlier version. -/
def RegCfgUnkeyed : Prop := ∀ reg, env.cfg = some reg → reg.text ≠ regDeviceKey env

/-- The key block decides. -/
theorem RegUnkeyed.congr {flash flash' : RegFlash} (h : RegUnkeyed env flash)
    (hkey : flash'.keyBlock = flash.keyBlock) : RegUnkeyed env flash' := fun reg ops hread =>
  h reg ops ((prvReadRegFromFs_congr env hkey.symm).trans hread)

/-- An erased block has no key. -/
theorem regUnkeyed_erased (hcfg : RegCfgUnkeyed env) {flash : RegFlash}
    (h : flash.keyBlock = nvErased) :
    RegUnkeyed env flash := by
  intro reg ops hread
  rw [prvReadRegFromFs, h, nvData_nvErased, Option.elim_none] at hread
  cases hcase : env.cfg with
  | none =>
    rw [hcase, Option.elim_none] at hread
    obtain ⟨rfl, -⟩ := Prod.ext_iff.mp hread
    rw [text_cRegDefault]
    exact (regDeviceKey_ne_nil env).symm
  | some cfg =>
    rw [hcase, Option.elim_some] at hread
    obtain ⟨rfl, -⟩ := Prod.ext_iff.mp hread
    exact hcfg cfg hcase

/-- Saving what is not the key leaves no key at any time. -/
theorem regUnkeyed_take (hcfg : RegCfgUnkeyed env) {flash : RegFlash} (h : RegUnkeyed env flash)
    {keyOps : List NvOp} {reg : RegT} (hkey : keyOps = [] ∨ keyOps = prvSaveRegCfgToFs reg)
    (hreg : reg.text ≠ regDeviceKey env) (k : ℕ) : RegUnkeyed env (nvApply flash (keyOps.take k)) := by
  rcases hkey with rfl | rfl
  · rw [List.take_nil]
    exact h
  · match k with
    | 0 => exact h
    | 1 => exact regUnkeyed_erased env hcfg rfl
    | k + 2 =>
      have htake : (prvSaveRegCfgToFs reg).take (k + 2) = prvSaveRegCfgToFs reg := by
        rw [prvSaveRegCfgToFs, List.take_succ_cons, List.take_succ_cons, List.take_nil]
      rw [htake]
      intro reg' ops hread
      rw [prvReadRegFromFs_saved] at hread
      obtain ⟨rfl, -⟩ := Prod.ext_iff.mp hread
      exact hreg

/-- A device that is not registered stays so as long as its key is not entered, wherever the power is
lost. -/
theorem regStep_unkeyed (hcfg : RegCfgUnkeyed env) {s s' : RegState} {op : RegOp} {cut : Option ℕ}
    (h : RegHolds env s) (hreg : s.ram.isreg = false) (hop : ∀ now, op ≠ .doreg (regDeviceKey env) now)
    (hstep : regStep env s (op, cut) = some s') : s'.ram.isreg = false := by
  obtain ⟨infoOps, keyOps, ram, hwrites⟩ := regWrites_op env h op
  have hafter : ram.isreg = false := by
    cases op with
    | doreg key now =>
      rw [hwrites.entered key now rfl]
      exact decide_eq_false fun heq => hop now (by rw [heq])
    | restart => rw [(hwrites.kept fun _ _ heq => by cases heq).2, hreg]
    | idle ms => rw [(hwrites.kept fun _ _ heq => by cases heq).2, hreg]
  have htext : ram.reg.text ≠ regDeviceKey env :=
    of_decide_eq_false (hwrites.holds.isreg.symm.trans hafter)
  have hbefore : RegUnkeyed env s.flash := by
    intro reg ops hread
    obtain ⟨saved, hsaved⟩ := h.reg
    obtain ⟨rfl, -⟩ := Prod.ext_iff.mp (hread.symm.trans hsaved)
    exact of_decide_eq_false (h.isreg.symm.trans hreg)
  rw [regStep, hwrites.done, Option.bind_some] at hstep
  cases cut with
  | none =>
    obtain rfl := Option.some.inj hstep
    exact hafter
  | some cut =>
    obtain ⟨started, hstart, hholds, ⟨saved, hread⟩, -⟩ :=
      regPowerOn_holds env (nvApply s.flash ((infoOps ++ keyOps).take cut))
    obtain rfl := Option.some.inj (hstart.symm.trans hstep)
    have hinfo : infoOps = [] ∨ infoOps = prvSaveRegInfoToRom ram.info :=
      hwrites.info.imp (fun hnone => hnone.1) fun hsave => hsave.1
    have hcut : RegUnkeyed env (nvApply s.flash ((infoOps ++ keyOps).take cut)) := by
      rw [List.take_append, nvApply_append]
      exact regUnkeyed_take env hcfg (hbefore.congr env (keyBlock_take hinfo s.flash cut))
        hwrites.key htext _
    rw [hholds.isreg]
    exact decide_eq_false (hcut _ _ hread)

/-- With the trial over nothing is counted any more. -/
theorem regStep_over {s s' : RegState} {op : RegOp} {cut : Option ℕ} (h : RegHolds env s)
    (hover : regTestover s.ram.info = true) (hstep : regStep env s (op, cut) = some s') :
    regTestover s'.ram.info = true := by
  rcases regStep_info env h hstep with ⟨-, hinfo⟩ | ⟨hcounts, -⟩
  · rw [hinfo]
    exact hover
  · exact absurd (hcounts.2.2.symm.trans hover) Bool.false_ne_true

end Cuts

section Web

/-- What `_webnet_module_cgi_uri_physical` does with a request for a name. -/
inductive CgiAnswer
  | ret401
  | ret402
  | handler (name : String)
deriving DecidableEq

/-- `_webnet_module_cgi_uri_physical`, for a path below the root of the CGI. -/
def webnetModuleCgi (login : Bool) (ram : RegRam) (name : String) : CgiAnswer :=
  if !login then .ret401
  else if !ram.isreg && regTestover ram.info && name ≠ "reggetid" && name ≠ "doreg" then .ret402
  else .handler name

end Web


section Reached

variable (env : RegEnv)

/-- A device that starts on a flash and runs. -/
def regReach (flash : RegFlash) (events : List (RegOp × Option ℕ)) : Option RegState :=
  (regPowerOn env flash).bind fun s => regRun env s events

/-- What is reached agrees with the flash. -/
theorem regReach_holds (flash : RegFlash) (events : List (RegOp × Option ℕ)) :
    ∃ s, regReach env flash events = some s ∧ RegHolds env s := by
  obtain ⟨s, hstart, hholds, -⟩ := regPowerOn_holds env flash
  obtain ⟨s', hrun, hlast⟩ := regRun_holds env hholds events
  exact ⟨s', by rw [regReach, hstart]; exact hrun, hlast⟩

/-- On whatever flash a device starts, and wherever the power is lost afterwards, it is registered
exactly when the key it keeps is its own, and another start finds the registration and the trial
time as they are. -/
theorem regReach_restart (flash : RegFlash) (events : List (RegOp × Option ℕ)) :
    ∃ s s', regReach env flash events = some s ∧ regStep env s (.restart, none) = some s' ∧
      (s.ram.isreg = true ↔ s.ram.reg.text = regDeviceKey env) ∧
      s'.ram.reg = s.ram.reg ∧ s'.ram.info = s.ram.info ∧ s'.ram.regid = s.ram.regid ∧
      s'.ram.isreg = s.ram.isreg := by
  obtain ⟨s, hreach, hholds⟩ := regReach_holds env flash events
  obtain ⟨keyOps, ram, hinit, -, -, hinfo, hreg, hisreg, hregid⟩ := regWrites_restart env hholds
  refine ⟨s, ⟨nvApply s.flash keyOps, ram⟩, hreach, ?_, ?_, hreg, hinfo, hregid, hisreg⟩
  · rw [regStep, regOp, hinit, Option.bind_some]
  · rw [hholds.isreg, decide_eq_true_eq]

/-- The key that was entered last. -/
def regEnteredKey (ops : List RegOp) (last : Option (List UInt8)) : Option (List UInt8) :=
  ops.foldl (fun last op =>
    match op with
    | .doreg key _ => some key
    | _ => last) last

/-- As long as the power is not lost, the last key that is entered decides over the registration,
through every start: a wrong one takes it back. -/
theorem regReach_lastKey (flash : RegFlash) (events : List (RegOp × Option ℕ)) (ops : List RegOp) :
    ∃ s s', regReach env flash events = some s ∧ regRun env s (ops.map fun op => (op, none)) = some s' ∧
      s'.ram.isreg = (regEnteredKey ops none).elim s.ram.isreg fun key =>
      decide (key = regDeviceKey env) := by
  obtain ⟨s, hreach, hholds⟩ := regReach_holds env flash events
  suffices hrun : ∀ (first : Bool) (last : Option (List UInt8)) (s : RegState), RegHolds env s →
      s.ram.isreg = (last.elim first fun key => decide (key = regDeviceKey env)) →
      ∃ s', regRun env s (ops.map fun op => (op, none)) = some s' ∧
        s'.ram.isreg = (regEnteredKey ops last).elim first fun key => decide (key = regDeviceKey env) by
    obtain ⟨s', hs', hisreg⟩ := hrun s.ram.isreg none s hholds rfl
    exact ⟨s, s', hreach, hs', hisreg⟩
  clear hreach hholds s
  induction ops with
  | nil => exact fun first last s _ hlast => ⟨s, rfl, hlast⟩
  | cons op ops ih =>
    intro first last s hholds hlast
    obtain ⟨infoOps, keyOps, ram, hwrites⟩ := regWrites_op env hholds op
    have hstep : regStep env s (op, none) = some ⟨nvApply s.flash (infoOps ++ keyOps), ram⟩ := by
      rw [regStep, hwrites.done, Option.bind_some]
    obtain ⟨next, hnext⟩ : ∃ next, regEnteredKey (op :: ops) last = regEnteredKey ops next ∧
        ram.isreg = next.elim first fun key => decide (key = regDeviceKey env) := by
      cases op with
      | doreg key now => exact ⟨some key, rfl, hwrites.entered key now rfl⟩
      | restart => exact ⟨last, rfl, (hwrites.kept fun _ _ heq => by cases heq).2.trans hlast⟩
      | idle ms => exact ⟨last, rfl, (hwrites.kept fun _ _ heq => by cases heq).2.trans hlast⟩
    obtain ⟨s', hrun, hisreg⟩ := ih first next _ hwrites.holds hnext.2
    refine ⟨s', ?_, by rw [hnext.1]; exact hisreg⟩
    rw [regRun, List.map_cons, List.foldlM_cons, hstep]
    exact hrun

/-- In whatever state, the trial time goes back exactly when it is counted and the power is lost
behind the erasing of its block and before the writing. -/
theorem regReach_time_lt_iff (flash : RegFlash) (events : List (RegOp × Option ℕ)) (op : RegOp)
    (cut : Option ℕ) : ∃ s s', regReach env flash events = some s ∧ regStep env s (op, cut) = some s' ∧
      (s'.ram.info.testTime < s.ram.info.testTime ↔
        cut = some 1 ∧ RegCounts s op ∧ s.ram.info.testTime ≠ 0) := by
  obtain ⟨s, hreach, hholds⟩ := regReach_holds env flash events
  obtain ⟨s', hstep, -⟩ := regStep_holds env hholds (op, cut)
  exact ⟨s, s', hreach, hstep, regStep_time_lt_iff env hholds hstep⟩

/-- A chip that cannot be read, and nothing on the stack or from an earlier version. -/
def bareEnv : RegEnv where
  id := none
  stack := ⟨fun crc _ _ => crc, fun crc _ _ => crc,
    fun _ => ⟨(0, 0), Sdccp.md5Init, Vector.replicate 64 0, []⟩,
    fun _ => ⟨shaInit, 0, Vector.replicate 64 0, 0⟩⟩
  cfg := none
  testMode := false

/-- A flash with no key and a trial that is over. -/
def overFlash : RegFlash :=
  nvApply ⟨nvErased, nvErased⟩ (prvSaveRegInfoToRom ⟨regTestOverTime, regDefRandomcode⟩)

end Reached

end DasEdge.Reg
