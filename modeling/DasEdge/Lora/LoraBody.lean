import DasEdge.Board.DasUtil
import DasEdge.Lora.LoraStd
import DasEdge.Lora.LoraSend

/-!
# The body of a LoRa message

`__lora_std_parse_buffer` takes a packet that `__check_buffer` has accepted. The length of the
packet is at least that of its head and its sum, but nothing compares it with what a message of the
type has: the fields of an announcement, the addresses that it counts, the signal values and the
network id are read wherever they would be, and the length of Modbus data is a difference in 8 bits.
The data that a callee is given count as read. What the callee does with them is left out, and so is
the registry but for the network ids in it.
-/

namespace DasEdge.Lora

open DasEdge.Board DasEdge.Library DasEdge.Wireless

/-- `MB_RTU_PDU_SIZE_MIN` -/
def mbRtuPduSizeMin : ℕ := 4

/-- `MB_RTU_PDU_SIZE_MAX` -/
def mbRtuPduSizeMax : ℕ := 256

/-- The offset of `data` in `lora_std_info_t`. -/
def loraStdInfoSize : ℕ := 27

/-- `sizeof(lora_std_rssi_t)` -/
def loraStdRssiSize : ℕ := 4

/-- The size of a network id. -/
def loraNetidSize : ℕ := 4

/-- `lora_tmode_e` -/
inductive LoraTmode where
  | gw
  | trt
  | dtu
  deriving DecidableEq

/-- `LORA_WORK_TYPE_E` -/
inductive LoraWorkType where
  | endDevice
  | central
  deriving DecidableEq

/-- What is configured: the own network id, whether the LoRa port is occupied for transfer, the
modes, and the ports of the configured destination and of a slave address, where there are any. -/
structure LoraParseCfg where
  addr : UInt32
  uartOcc : Bool
  tmode : LoraTmode
  workMode : LoraWorkType
  dstInstance : Option ℕ
  uartWithSlaveAddr : UInt8 → Option ℕ

/-- A call that `__lora_std_parse_buffer` makes. -/
inductive LoraAct where
  | mnodeOnline (netid : UInt32) (rssi : UInt8)
  | sendInfoReq (addr : UInt32)
  | mnodeInsert (info : LoraStdInfo) (rssi : UInt8)
  | sendJoinPost (addr : UInt32)
  | mnodeUpdateRssi (snr rssiDb : UInt16) (netid : UInt32) (rssi : UInt8)
  | dstSerialRecv (data : List UInt8)
  | dstSerialSend (port : ℕ) (data : List UInt8)
  | push (data : List UInt8)
  | delay

/-- The places of the body that are read, by `__lora_std_parse_buffer` itself or by what it calls,
and the calls. -/
structure LoraParsed where
  reads : List ℕ
  acts : List LoraAct

/-- The 16-bit number at a place. -/
def readWord (buffer : ℕ → UInt8) (pos : ℕ) : UInt16 :=
  (buffer pos).toUInt16 + (buffer (pos + 1)).toUInt16 * 0x100

/-- The body as `lora_std_info_t`. -/
def readStdInfo (buffer : ℕ → UInt8) : LoraStdInfo where
  workmode := buffer 0
  netid := readUInt32 buffer 1
  id := ⟨readWord buffer 5, readWord buffer 7, (List.range 16).map fun n => buffer (9 + n)⟩
  type := buffer 25
  cnt := buffer 26
  data n := buffer (loraStdInfoSize + n)

/-- The addresses that `_lora_snode_insert` copies out of an announcement. -/
def snodeAddrsTaken (info : SnodeInfo) : List UInt8 :=
  if info.type = snTModbusRtu ∨ info.type = snTModbusAscii then info.addrs else []

/-- The places of an announcement that `lora_mnode_insert` reads; `id` is only read for a node that
is new. -/
def mnodeInsertReads (known : Bool) (info : LoraStdInfo) : List ℕ :=
  List.range 5 ++ (if known then [] else List.range' 5 20) ++ [25, 26] ++
    List.range' loraStdInfoSize (snodeAddrsTaken info.toSnodeInfo).length

/-- What is done with the data of a Modbus message: whether they are read, the calls, and whether
the sender is set online behind that. -/
structure LoraDataUse where
  read : Bool
  acts : List LoraAct
  online : Bool

/-- The data of a Modbus message for this node. -/
def loraModbusData (cfg : LoraParseCfg) (data : List UInt8) : LoraDataUse :=
  if cfg.uartOcc then
    if cfg.tmode = .gw then ⟨true, [.dstSerialRecv data], true⟩ else ⟨false, [], true⟩
  else if cfg.tmode = .trt then
    match cfg.dstInstance with
    | some port => ⟨true, [.dstSerialSend port data], true⟩
    | none => ⟨false, [], true⟩
  else if mbRtuPduSizeMin ≤ data.length ∧ data.length < mbRtuPduSizeMax then
    if dasCrc16 data = 0 then
      if cfg.workMode = .endDevice ∧ cfg.tmode = .dtu then
        match cfg.uartWithSlaveAddr (data.getD 0 0) with
        -- the jump to `_END`
        | some port => ⟨true, [.dstSerialSend port data], false⟩
        | none => ⟨true, [.push data], true⟩
      else ⟨true, [.push data], true⟩
    else ⟨true, [], true⟩
  else ⟨false, [], true⟩

/-- The size of the network id in a Modbus message: one that is point to point has none. -/
def loraNetidBytes (head : LoraStdHead) : ℕ := if head.p2p = 0 then loraNetidSize else 0

/-- `__lora_std_parse_buffer`: what it does with the message that it has found; `known` are the
network ids of the registered nodes. -/
def loraStdParseBody (cfg : LoraParseCfg) (known : UInt32 → Bool) (cmdHead : LoraCmdHead)
    (head : LoraStdHead)
    (buffer : ℕ → UInt8) : LoraParsed :=
  match loraStdParseBuffer cfg.addr cmdHead head buffer with
  | .heartbeat addr rssi => ⟨[], [.mnodeOnline addr rssi]⟩
  | .online addr => ⟨[], [.sendInfoReq addr]⟩
  | .info addr rssi =>
    let info := readStdInfo buffer
    ⟨mnodeInsertReads (known info.netid) info,
      [.mnodeInsert info rssi, .sendJoinPost addr, .mnodeOnline addr rssi]⟩
  | .rssi addr rssi =>
    -- `lora_mnode_update_rssi` looks at the values when it has found the node
    if known addr then
      ⟨List.range loraStdRssiSize, [.mnodeUpdateRssi (readWord buffer 0) (readWord buffer 2) addr rssi]⟩
    else ⟨[], []⟩
  | .data addr rssi data =>
    let use := loraModbusData cfg data
    ⟨List.range (loraNetidBytes head) ++
      (if use.read then List.range' (loraNetidBytes head) data.length else []),
      use.acts ++ if use.online then [.mnodeOnline addr rssi] else []⟩
  | .otherNet => ⟨List.range (loraNetidBytes head), if head.p2p = 0 then [.delay] else []⟩
  | .unknown => ⟨[], []⟩

/-- How many bytes of addresses an announcement contains: those between its fixed fields and the sum. -/
def loraAddrBytes (head : LoraStdHead) : ℕ :=
  head.msglen.toNat - (loraStdHeadSize + loraStdInfoSize + 2)

/-- Only bytes inside the length of the packet are read, and no more addresses are taken from an
announcement than it contains. -/
structure LoraParseSound (head : LoraStdHead) (parsed : LoraParsed) : Prop where
  reads : ∀ place ∈ parsed.reads, loraStdHeadSize + place < head.msglen.toNat
  addrs : ∀ info rssi, LoraAct.mnodeInsert info rssi ∈ parsed.acts →
    (snodeAddrsTaken info.toSnodeInfo).length ≤ loraAddrBytes head

/-- Some callee takes the data of a Modbus message, when they are not short. -/
def LoraParseCfg.TakesData (cfg : LoraParseCfg) : Prop :=
  if cfg.uartOcc then cfg.tmode = .gw else cfg.tmode = .trt → cfg.dstInstance ≠ none

/-- The packet has the fixed fields of its message, an announcement has the addresses that it
counts, and a Modbus message with data to be taken has a sum behind its network id. -/
structure LoraBodyFits (cfg : LoraParseCfg) (known : UInt32 → Bool) (cmdHead : LoraCmdHead)
    (head : LoraStdHead)
    (buffer : ℕ → UInt8) : Prop where
  info : head.packtype = loraStdRsp → head.msgtype = loraStdMsgProtInfo →
    loraStdHeadSize + loraStdInfoSize ≤ head.msglen.toNat ∧
      (buffer 25 = snTModbusRtu ∨ buffer 25 = snTModbusAscii → (buffer 26).toNat ≤ loraAddrBytes head)
  rssi : head.packtype = loraStdRsp → head.msgtype = loraStdMsgRssi → known cmdHead.addr = true →
    loraStdHeadSize + loraStdRssiSize ≤ head.msglen.toNat
  modbus : head.packtype = loraStdRsp → head.msgtype = loraStdMsgDataModbusRtu → head.p2p = 0 →
    loraStdHeadSize + loraNetidSize ≤ head.msglen.toNat ∧
      (readUInt32 buffer 0 = cfg.addr → cfg.TakesData →
      loraStdHeadSize + loraNetidSize + 2 ≤ head.msglen.toNat)

/-- As many addresses are taken as are counted, when they are of one of the Modbus types. -/
theorem length_snodeAddrsTaken (info : SnodeInfo) :
    (snodeAddrsTaken info).length = if info.type = snTModbusRtu ∨
      info.type = snTModbusAscii then info.cnt.toNat else 0 := by
  unfold snodeAddrsTaken SnodeInfo.addrs
  split
  · rw [List.length_map, List.length_range]
  · rfl

/-- The place of the address count is read from every announcement. -/
theorem mem_mnodeInsertReads_cnt (known : Bool) (info : LoraStdInfo) :
    26 ∈ mnodeInsertReads known info := by
  simp [mnodeInsertReads]

/-- An announcement is read up to its last address. -/
theorem lt_of_mem_mnodeInsertReads {known : Bool} {info : LoraStdInfo} {place : ℕ}
    (h : place ∈ mnodeInsertReads known info) :
    place < loraStdInfoSize + (snodeAddrsTaken info.toSnodeInfo).length := by
  simp only [mnodeInsertReads, loraStdInfoSize, List.mem_append, List.mem_range, List.mem_range'_1,
    List.mem_cons,
    List.not_mem_nil, or_false] at h ⊢
  rcases h with ((h | h) | h) | h
  · omega
  · cases known with
    | true => exact absurd h List.not_mem_nil
    | false =>
      have := List.mem_range'_1.mp h
      omega
  · omega
  · omega

/-- Data that are read are those of a configuration in which they are taken. -/
theorem LoraParseCfg.takesData_of_read {cfg : LoraParseCfg} {data : List UInt8}
    (h : (loraModbusData cfg data).read = true) : cfg.TakesData := by
  unfold loraModbusData at h
  unfold LoraParseCfg.TakesData
  split at h
  · next hocc =>
    rw [if_pos hocc]
    split at h
    · assumption
    · cases h
  · next hocc =>
    rw [if_neg hocc]
    intro htrt hnone
    rw [if_pos htrt, hnone] at h
    cases h

/-- Data that are not short are read, where they are taken. -/
theorem LoraParseCfg.TakesData.read {cfg : LoraParseCfg} (h : cfg.TakesData) {data : List UInt8}
    (hmin : mbRtuPduSizeMin ≤ data.length) (hmax : data.length < mbRtuPduSizeMax) :
    (loraModbusData cfg data).read = true := by
  unfold LoraParseCfg.TakesData at h
  unfold loraModbusData
  by_cases hocc : cfg.uartOcc = true
  · rw [if_pos hocc] at h ⊢
    rw [if_pos h]
  · rw [if_neg hocc] at h ⊢
    by_cases htrt : cfg.tmode = .trt
    · obtain ⟨port, hport⟩ := Option.ne_none_iff_exists'.mp (h htrt)
      rw [if_pos htrt, hport]
    · rw [if_neg htrt, if_pos ⟨hmin, hmax⟩]
      -- the data are read for their sum, whatever is done with them then
      split
      · split
        · split <;> rfl
        · rfl
      · rfl

section Messages

variable {cfg : LoraParseCfg} {known : UInt32 → Bool} {cmdHead : LoraCmdHead} {head : LoraStdHead}
  {buffer : ℕ → UInt8}

/-- The data of a Modbus message are what is left of its length in 8 bits. -/
theorem length_loraData (addr : UInt32) (hlen : loraStdHeadSize + 2 ≤ head.msglen.toNat) :
    (loraData addr head buffer).2.length =
      if head.p2p = 0 then (head.msglen.toNat + 245) % 256
      else head.msglen.toNat - (loraStdHeadSize + 2) := by
  have hlt := head.msglen.toNat_lt
  unfold loraStdHeadSize at hlen
  by_cases hp2p : head.p2p = 0
  · simp only [loraData, if_pos hp2p, List.length_map, List.length_range, UInt8.toNat_sub]
    change (2 ^ 8 - 2 + (2 ^ 8 - 4 + (2 ^ 8 - 5 + head.msglen.toNat) % 2 ^ 8) % 2 ^ 8) % 2 ^ 8 = _
    omega
  · simp only [loraData, if_neg hp2p, List.length_map, List.length_range, UInt8.toNat_sub,
      UInt8.toNat_add]
    change ((2 ^ 8 - 2 + (2 ^ 8 - 4 + (2 ^ 8 - 5 + head.msglen.toNat) % 2 ^ 8) % 2 ^ 8) % 2 ^ 8 +
      4) % 2 ^ 8 = _
    unfold loraStdHeadSize
    omega

/-- The network id that a Modbus message is for. -/
theorem loraData_netId (addr : UInt32) :
    (loraData addr head buffer).1 = if head.p2p = 0 then readUInt32 buffer 0 else addr := by
  by_cases hp2p : head.p2p = 0
  · simp only [loraData, if_pos hp2p]
  · simp only [loraData, if_neg hp2p]

/-- A message of no type with a body is not read. -/
theorem loraParseSound_quiet
    (h : head.packtype ≠ loraStdRsp ∨ head.msgtype ≠ loraStdMsgProtInfo ∧
      head.msgtype ≠ loraStdMsgRssi ∧
      head.msgtype ≠ loraStdMsgDataModbusRtu) :
    LoraParseSound head (loraStdParseBody cfg known cmdHead head buffer) := by
  have hquiet : loraStdParseBuffer cfg.addr cmdHead head buffer = .heartbeat cmdHead.addr head.rssi ∨
      loraStdParseBuffer cfg.addr cmdHead head buffer = .online cmdHead.addr ∨
        loraStdParseBuffer cfg.addr cmdHead head buffer = .unknown := by
    unfold loraStdParseBuffer
    split
    · split
      · exact .inl rfl
      · exact .inr (.inr rfl)
    · split
      · split
        · exact .inr (.inl rfl)
        · exact .inr (.inr rfl)
      · split
        · next hrsp =>
          obtain ⟨hinfo, hrssi, hmodbus⟩ := h.resolve_left fun hne => hne hrsp
          rw [if_neg hinfo, if_neg hrssi, if_neg hmodbus]
          exact .inr (.inr rfl)
        · exact .inr (.inr rfl)
  rcases hquiet with hmessage | hmessage | hmessage <;>
    refine ⟨?_, ?_⟩ <;> simp [loraStdParseBody, hmessage]

/-- An answer is taken by its type. -/
theorem loraStdParseBuffer_rsp (addr : UInt32) (hpack : head.packtype = loraStdRsp) :
    loraStdParseBuffer addr cmdHead head buffer =
      if head.msgtype = loraStdMsgProtInfo then .info cmdHead.addr head.rssi
      else if head.msgtype = loraStdMsgRssi then .rssi cmdHead.addr head.rssi
      else if head.msgtype = loraStdMsgDataModbusRtu then
        if (loraData addr head buffer).1 = addr then .data cmdHead.addr head.rssi
          (loraData addr head buffer).2
        else .otherNet
      else .unknown := by
  unfold loraStdParseBuffer
  rw [if_neg (by rw [hpack]; decide), if_neg (by rw [hpack]; decide), if_pos hpack]

/-- An announcement is read inside its packet, if and only if its fixed fields and the addresses it
counts are. -/
theorem loraParseSound_info_iff (hpack : head.packtype = loraStdRsp)
    (hmsg : head.msgtype = loraStdMsgProtInfo) :
    LoraParseSound head (loraStdParseBody cfg known cmdHead head buffer) ↔
      loraStdHeadSize + loraStdInfoSize ≤ head.msglen.toNat ∧
        (buffer 25 = snTModbusRtu ∨ buffer 25 = snTModbusAscii →
        (buffer 26).toNat ≤ loraAddrBytes head) := by
  have hmessage : loraStdParseBuffer cfg.addr cmdHead head buffer = .info cmdHead.addr head.rssi := by
    rw [loraStdParseBuffer_rsp cfg.addr hpack, if_pos hmsg]
  have htaken : (snodeAddrsTaken (readStdInfo buffer).toSnodeInfo).length =
      if buffer 25 = snTModbusRtu ∨ buffer 25 = snTModbusAscii then (buffer 26).toNat else 0 :=
      length_snodeAddrsTaken _
  simp only [loraStdParseBody, hmessage]
  constructor
  · rintro ⟨hreads, haddrs⟩
    refine ⟨hreads 26 (mem_mnodeInsertReads_cnt _ _), fun htype => ?_⟩
    have hle := haddrs _ _ List.mem_cons_self
    rwa [htaken, if_pos htype] at hle
  · rintro ⟨hfixed, hcnt⟩
    have hle : (snodeAddrsTaken (readStdInfo buffer).toSnodeInfo).length ≤ loraAddrBytes head := by
      rw [htaken]
      split
      · next htype => exact hcnt htype
      · exact Nat.zero_le _
    refine ⟨fun place hplace => ?_, fun info rssi hact => ?_⟩
    · have hlt := lt_of_mem_mnodeInsertReads hplace
      unfold loraAddrBytes at hle
      omega
    · simp only [List.mem_cons, LoraAct.mnodeInsert.injEq, reduceCtorEq, List.not_mem_nil,
        or_false] at hact
      rw [hact.1]
      exact hle

/-- The signal values of a node that is registered are read inside the packet, if and only if they
are there. -/
theorem loraParseSound_rssi_iff (hpack : head.packtype = loraStdRsp)
    (hmsg : head.msgtype = loraStdMsgRssi) :
    LoraParseSound head (loraStdParseBody cfg known cmdHead head buffer) ↔
      (known cmdHead.addr = true → loraStdHeadSize + loraStdRssiSize ≤ head.msglen.toNat) := by
  have hmessage : loraStdParseBuffer cfg.addr cmdHead head buffer = .rssi cmdHead.addr head.rssi := by
    rw [loraStdParseBuffer_rsp cfg.addr hpack, if_neg (by rw [hmsg]; decide), if_pos hmsg]
  simp only [loraStdParseBody, hmessage]
  split
  · next hknown =>
    constructor
    · rintro ⟨hreads, -⟩ -
      exact hreads 3 (List.mem_range.mpr (by decide))
    · intro hlen
      refine ⟨fun place hplace => ?_, fun info rssi hact => ?_⟩
      · have hlt := List.mem_range.mp hplace
        have := hlen hknown
        omega
      · simp at hact
  · next hknown =>
    refine iff_of_true ⟨fun place hplace => ?_, fun info rssi hact => ?_⟩ fun h => absurd h hknown
    · exact absurd hplace List.not_mem_nil
    · exact absurd hact List.not_mem_nil

/-- No node is inserted for data. -/
theorem mnodeInsert_not_mem_modbus (cfg : LoraParseCfg) (data : List UInt8) (info : LoraStdInfo)
    (rssi : UInt8) :
    LoraAct.mnodeInsert info rssi ∉ (loraModbusData cfg data).acts := by
  unfold loraModbusData
  intro hact
  repeat' split at hact
  all_goals simp at hact

/-- Data for this node are read inside the packet, if and only if the network id is there, and the
data when they are read. -/
theorem loraParseSound_data_iff {addr : UInt32} {rssi : UInt8} {data : List UInt8}
    (hmessage : loraStdParseBuffer cfg.addr cmdHead head buffer = .data addr rssi data)
    (hlen : loraStdHeadSize + 2 ≤ head.msglen.toNat) :
    LoraParseSound head (loraStdParseBody cfg known cmdHead head buffer) ↔
      loraStdHeadSize + loraNetidBytes head ≤ head.msglen.toNat ∧
        ((loraModbusData cfg data).read = true →
          loraStdHeadSize + loraNetidBytes head + data.length ≤ head.msglen.toNat) := by
  simp only [loraStdParseBody, hmessage]
  constructor
  · rintro ⟨hreads, -⟩
    have hid : loraStdHeadSize + loraNetidBytes head ≤ head.msglen.toNat := by
      by_contra hshort
      have := hreads (loraNetidBytes head - 1) (List.mem_append_left _ (List.mem_range.mpr (by omega)))
      omega
    refine ⟨hid, fun hread => ?_⟩
    rw [if_pos hread] at hreads
    by_contra hshort
    have := hreads (loraNetidBytes head + (data.length - 1))
      (List.mem_append_right _ (List.mem_range'_1.mpr (by omega)))
    omega
  · rintro ⟨hid, hdata⟩
    refine ⟨fun place hplace => ?_, fun info rssi' hact => ?_⟩
    · rcases List.mem_append.mp hplace with hplace | hplace
      · have := List.mem_range.mp hplace
        omega
      · split at hplace
        · next hread =>
          have := hdata hread
          have := List.mem_range'_1.mp hplace
          omega
        · exact absurd hplace List.not_mem_nil
    · rcases List.mem_append.mp hact with hact | hact
      · exact absurd hact (mnodeInsert_not_mem_modbus cfg data info rssi')
      · split at hact <;> simp at hact

/-- A message for another node is read inside the packet, if and only if its network id is there. -/
theorem loraParseSound_otherNet_iff
    (hmessage : loraStdParseBuffer cfg.addr cmdHead head buffer = .otherNet)
    (hlen : loraStdHeadSize + 2 ≤ head.msglen.toNat) :
    LoraParseSound head (loraStdParseBody cfg known cmdHead head buffer) ↔
      loraStdHeadSize + loraNetidBytes head ≤ head.msglen.toNat := by
  simp only [loraStdParseBody, hmessage]
  constructor
  · rintro ⟨hreads, -⟩
    by_contra hshort
    have := hreads (loraNetidBytes head - 1) (List.mem_range.mpr (by omega))
    omega
  · intro hid
    refine ⟨fun place hplace => ?_, fun info rssi hact => ?_⟩
    · have := List.mem_range.mp hplace
      omega
    · split at hact <;> simp at hact

/-- Modbus data are read inside the packet, if and only if the network id is there and no data are
taken when there is no sum behind it. -/
theorem loraParseSound_modbus_iff (hpack : head.packtype = loraStdRsp)
    (hmsg : head.msgtype = loraStdMsgDataModbusRtu)
    (hlen : loraStdHeadSize + 2 ≤ head.msglen.toNat) :
    LoraParseSound head (loraStdParseBody cfg known cmdHead head buffer) ↔
      (head.p2p = 0 → loraStdHeadSize + loraNetidSize ≤ head.msglen.toNat ∧
        (readUInt32 buffer 0 = cfg.addr → cfg.TakesData →
        loraStdHeadSize + loraNetidSize + 2 ≤ head.msglen.toNat)) := by
  have hmessage : loraStdParseBuffer cfg.addr cmdHead head buffer = _ :=
    loraStdParseBuffer_rsp cfg.addr hpack
  rw [if_neg (by rw [hmsg]; decide), if_neg (by rw [hmsg]; decide), if_pos hmsg, loraData_netId]
    at hmessage
  have hdata : (loraData cfg.addr head buffer).2.length = _ := length_loraData cfg.addr hlen
  by_cases hp2p : head.p2p = 0
  · have hid : loraNetidBytes head = loraNetidSize := if_pos hp2p
    rw [if_pos hp2p] at hmessage hdata
    by_cases hnet : readUInt32 buffer 0 = cfg.addr
    · rw [if_pos hnet] at hmessage
      rw [loraParseSound_data_iff hmessage hlen, hid, hdata]
      unfold loraStdHeadSize loraNetidSize
      constructor
      · rintro ⟨hfixed, hread⟩ -
        refine ⟨hfixed, fun _ htakes => ?_⟩
        by_contra hshort
        -- the length of the data has wrapped around, so that they are not short
        have hlt := head.msglen.toNat_lt
        have hle :=
          hread (htakes.read (by rw [hdata, mbRtuPduSizeMin]; omega)
          (by rw [hdata, mbRtuPduSizeMax]; omega))
        omega
      · intro hfits
        obtain ⟨hfixed, hsum⟩ := hfits hp2p
        refine ⟨hfixed, fun hread => ?_⟩
        have := hsum hnet (LoraParseCfg.takesData_of_read hread)
        have hlt := head.msglen.toNat_lt
        omega
    · rw [if_neg hnet] at hmessage
      rw [loraParseSound_otherNet_iff hmessage hlen, hid]
      exact ⟨fun hfixed _ => ⟨hfixed, fun h => absurd h hnet⟩, fun hfits => (hfits hp2p).1⟩
  · have hid : loraNetidBytes head = 0 := if_neg hp2p
    rw [if_neg hp2p, if_pos rfl] at hmessage
    rw [if_neg hp2p] at hdata
    rw [loraParseSound_data_iff hmessage hlen, hid, hdata]
    refine iff_of_true ⟨by omega, fun _ => by omega⟩ fun h => absurd h hp2p

end Messages

/-- A packet that is accepted is read inside its length, and no more addresses are taken from an
announcement than it contains, if and only if its body fits. -/
theorem loraStdParseBody_sound_iff (cfg : LoraParseCfg) (known : UInt32 → Bool) (cmdHead : LoraCmdHead)
    (packet : ℕ → UInt8) (h : checkBuffer (readStdHead packet 0) packet = true) :
    LoraParseSound (readStdHead packet 0)
        (loraStdParseBody cfg known cmdHead (readStdHead packet 0) fun n =>
          packet (loraStdHeadSize + n)) ↔
      LoraBodyFits cfg known cmdHead (readStdHead packet 0) fun n => packet (loraStdHeadSize + n) := by
  generalize readStdHead packet 0 = head at h ⊢
  have hlen : loraStdHeadSize + 2 ≤ head.msglen.toNat := by
    unfold checkBuffer at h
    split at h
    · next hpasses => exact hpasses.2.2.2.2
    · cases h
  by_cases hpack : head.packtype = loraStdRsp
  · by_cases hinfo : head.msgtype = loraStdMsgProtInfo
    · rw [loraParseSound_info_iff hpack hinfo]
      refine ⟨fun hfits => ⟨fun _ _ => hfits, fun _ hmsg => ?_, fun _ hmsg => ?_⟩,
        fun hfits => hfits.info hpack hinfo⟩ <;>
        rw [hinfo] at hmsg <;> exact absurd hmsg (by decide)
    by_cases hrssi : head.msgtype = loraStdMsgRssi
    · rw [loraParseSound_rssi_iff hpack hrssi]
      refine ⟨fun hfits => ⟨fun _ hmsg => ?_, fun _ _ => hfits, fun _ hmsg => ?_⟩,
        fun hfits => hfits.rssi hpack hrssi⟩ <;>
        rw [hrssi] at hmsg <;> exact absurd hmsg (by decide)
    by_cases hmodbus : head.msgtype = loraStdMsgDataModbusRtu
    · rw [loraParseSound_modbus_iff hpack hmodbus hlen]
      refine ⟨fun hfits => ⟨fun _ hmsg => absurd hmsg hinfo, fun _ hmsg => absurd hmsg hrssi,
        fun _ _ => hfits⟩,
        fun hfits => hfits.modbus hpack hmodbus⟩
    · exact iff_of_true (loraParseSound_quiet (.inr ⟨hinfo, hrssi, hmodbus⟩))
        ⟨fun _ hmsg => absurd hmsg hinfo, fun _ hmsg => absurd hmsg hrssi,
          fun _ hmsg => absurd hmsg hmodbus⟩
  · exact iff_of_true (loraParseSound_quiet (.inl hpack))
      ⟨fun h => absurd h hpack, fun h => absurd h hpack, fun h => absurd h hpack⟩

/-- An announcement of the length `msglen` that counts `cnt` addresses. -/
def announcement (msglen cnt : UInt8) (rest : List UInt8) : ℕ → UInt8 :=
  fun n => ([0xFE, 0xFD, 0x23, 0, msglen] ++ List.replicate 26 0 ++ cnt :: rest).getD n 0

/-- A gateway with the network id 1. -/
def loraGateway : LoraParseCfg := ⟨1, false, .gw, .central, none, fun _ => none⟩

/-- An announcement with two addresses counts two. -/
theorem loraStdParseBody_sound_iff_two :
    LoraParseSound (readStdHead (announcement 36 2 [5, 6, 0x4F, 0x02]) 0)
        (loraStdParseBody loraGateway (fun _ => false) ⟨0x41, 7, 0, 0⟩
          (readStdHead (announcement 36 2 [5, 6, 0x4F, 0x02]) 0)
          fun n => announcement 36 2 [5, 6, 0x4F, 0x02] (loraStdHeadSize + n)) ↔
      LoraBodyFits loraGateway (fun _ => false) ⟨0x41, 7, 0, 0⟩
        (readStdHead (announcement 36 2 [5, 6, 0x4F, 0x02]) 0)
        fun n => announcement 36 2 [5, 6, 0x4F, 0x02] (loraStdHeadSize + n) :=
  loraStdParseBody_sound_iff loraGateway (fun _ => false) ⟨0x41, 7, 0, 0⟩
    (announcement 36 2 [5, 6, 0x4F, 0x02])
    (by decide)

/-- An announcement with no address counts five. -/
theorem loraStdParseBody_not_sound :
    ¬ ∀ (cfg : LoraParseCfg) (known : UInt32 → Bool) (cmdHead : LoraCmdHead) (packet : ℕ → UInt8),
      checkBuffer (readStdHead packet 0) packet = true →
      LoraParseSound (readStdHead packet 0)
        (loraStdParseBody cfg known cmdHead (readStdHead packet 0) fun n =>
          packet (loraStdHeadSize + n)) := by
  intro hall
  have hsound :=
    hall loraGateway (fun _ => false) ⟨0x41, 7, 0, 0⟩ (announcement 34 5 [0x45, 0x02]) (by decide)
  have hread := hsound.reads 31 (by decide)
  exact absurd hread (by decide)

end DasEdge.Lora
