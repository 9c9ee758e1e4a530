import DasEdge.Lora.LoraStd

/-!
# Data over LoRa

`lora_send_buffer` writes a command head, a std head, the address of the node, the data and the sum
one after another to the serial port. The std head has the length of all but the command head in one
byte. The receiver computes the length of the data from that byte, in eight bits too. So the data
come back as long as the length fits, and nothing in `lora_send_buffer` sees to it that it does.
What is sent with other types, and what the receiver does with the data, is left out.
-/

namespace DasEdge.Lora

open DasEdge.Library

/-- `LORA_CMD_SEND` -/
def loraCmdSend : UInt8 := 0x61

/-- `elora_std_pack_t` -/
def loraStdAck : BitVec 2 := 0
def loraStdPost : BitVec 2 := 1
def loraStdReq : BitVec 2 := 2
def loraStdRsp : BitVec 2 := 3

/-- The members of `elora_std_msg_t` that are used here. -/
def loraStdMsgProtHrt : BitVec 5 := 1
def loraStdMsgProtOnline : BitVec 5 := 2
def loraStdMsgProtInfo : BitVec 5 := 4
def loraStdMsgDataModbusRtu : BitVec 5 := 5
def loraStdMsgRssi : BitVec 5 := 7

/-- What `lora_send_buffer` returns, and what it writes to the serial port. -/
structure LoraSend where
  result : ℤ
  written : List (List UInt8)

/-- `__lora_get_check` over a list of bytes. -/
def loraGetCheckOf (check : UInt16) (bytes : List UInt8) : UInt16 :=
  loraGetCheck check (fun n => bytes.getD n 0) bytes.length

/-- The std head in front of `n` bytes of data. -/
def loraDataHead (n : ℕ) : LoraStdHead where
  pre0 := loraStdPre0
  pre1 := loraStdPre1
  packtype := loraStdReq
  p2p := 0
  msgtype := loraStdMsgDataModbusRtu
  rssi := 0
  msglen := UInt8.ofNat (loraStdHeadSize + n + 4 + 2)

/-- `lora_send_buffer`. The serial port may be missing; `send` says what `__lora_send_buffer`
returns. -/
def loraSendBuffer (serial : Bool) (send : List UInt8 → ℤ) (maddr dstAddr : UInt32)
    (buffer : Option (List UInt8))
    (type : BitVec 5) : LoraSend :=
  match buffer with
  | none => ⟨0, []⟩
  | some buffer =>
    if serial && 0 < buffer.length then
      let cmdHead : LoraCmdHead := ⟨loraCmdSend, maddr, 0, 0⟩
      let result := send cmdHead.bytes
      let (written, check) :=
        if type = loraStdMsgDataModbusRtu then
          let head := (loraDataHead buffer.length).bytes
          let check := loraGetCheckOf 0 head
          ([cmdHead.bytes, head, uint32Bytes dstAddr], loraGetCheckOf check (uint32Bytes dstAddr))
        else ([cmdHead.bytes], 0)
      if 0 < result then
        ⟨send buffer, written ++ [buffer, uint16Bytes (loraGetCheckOf check buffer)]⟩
      else ⟨result, written ++ [uint16Bytes check]⟩
    else ⟨0, []⟩

/-- The network id and the data that a message with data has: without `p2p` the id comes first. -/
def loraData (addr : UInt32) (head : LoraStdHead) (buffer : ℕ → UInt8) : UInt32 × List UInt8 :=
  let (netId, first) := if head.p2p = 0 then (readUInt32 buffer 0, 4) else (addr, 0)
  let dataLen := head.msglen - UInt8.ofNat loraStdHeadSize - 4 - 2
  let dataLen := if head.p2p = 0 then dataLen else dataLen + 4
  (netId, (List.range dataLen.toNat).map fun n => buffer (first + n))

/-- What `__lora_std_parse_buffer` finds a message to be. -/
inductive LoraMessage where
  | heartbeat (addr : UInt32) (rssi : UInt8)
  | online (addr : UInt32)
  | info (addr : UInt32) (rssi : UInt8)
  | rssi (addr : UInt32) (rssi : UInt8)
  | data (addr : UInt32) (rssi : UInt8) (data : List UInt8)
  | otherNet
  | unknown

/-- `__lora_std_parse_buffer` on the node with the address `addr`. -/
def loraStdParseBuffer (addr : UInt32) (cmdHead : LoraCmdHead) (head : LoraStdHead)
    (buffer : ℕ → UInt8) : LoraMessage :=
  if head.packtype = loraStdAck then
    if head.msgtype = loraStdMsgProtHrt then .heartbeat cmdHead.addr head.rssi else .unknown
  else if head.packtype = loraStdPost then
    if head.msgtype = loraStdMsgProtOnline then .online cmdHead.addr else .unknown
  else if head.packtype = loraStdRsp then
    if head.msgtype = loraStdMsgProtInfo then .info cmdHead.addr head.rssi
    else if head.msgtype = loraStdMsgRssi then .rssi cmdHead.addr head.rssi
    else if head.msgtype = loraStdMsgDataModbusRtu then
      let (netId, data) := loraData addr head buffer
      if netId = addr then .data cmdHead.addr head.rssi data else .otherNet
    else .unknown
  else .unknown

/-- Bytes are one packet without `p2p` from which the data come back, wherever they lie. -/
structure LoraFrames (bytes data : List UInt8) (dstAddr : UInt32) : Prop where
  p2p : ∀ memory, ShowsAt memory 0 bytes → (readStdHead memory 0).p2p = 0
  msglen : ∀ memory, ShowsAt memory 0 bytes → (readStdHead memory 0).msglen.toNat = bytes.length
  check : ∀ memory, ShowsAt memory 0 bytes → checkBuffer (readStdHead memory 0) memory = true
  data : ∀ memory addr, ShowsAt memory 0 bytes →
    loraData addr (readStdHead memory 0) (fun n => memory (loraStdHeadSize + n)) = (dstAddr, data)

/-- The sum goes on over more bytes. -/
theorem loraGetCheckOf_eq (check : UInt16) (bytes : List UInt8) :
    loraGetCheckOf check bytes = bytes.foldl (fun check byte => check + byte.toUInt16) check := by
  have hmap := (showsAt_getD bytes 0).map_range
  simp only [Nat.zero_add] at hmap
  unfold loraGetCheckOf loraGetCheck
  conv_rhs => rw [← hmap, List.foldl_map]

/-- When the command head could be sent, the result is that of the data. -/
theorem loraSendBuffer_result {send : List UInt8 → ℤ} {maddr : UInt32} {data : List UInt8}
    (dstAddr : UInt32) (type : BitVec 5)
    (hdata : 0 < data.length) (hhead : 0 < send (LoraCmdHead.bytes ⟨loraCmdSend, maddr, 0, 0⟩)) :
    (loraSendBuffer true send maddr dstAddr (some data) type).result = send data := by
  simp only [loraSendBuffer, Bool.true_and, decide_eq_true hdata, if_true, if_pos hhead]

/-- What is written when the data could be sent. -/
theorem loraSendBuffer_written {serial : Bool} {send : List UInt8 → ℤ} {maddr dstAddr : UInt32}
    {data : List UInt8}
    (h : 0 < (loraSendBuffer serial send maddr dstAddr (some data) loraStdMsgDataModbusRtu).result) :
    ((loraSendBuffer serial send maddr dstAddr (some data) loraStdMsgDataModbusRtu).written.drop
      1).flatten =
      ((loraDataHead data.length).bytes ++ (uint32Bytes dstAddr ++ data)) ++
        uint16Bytes (loraSum ((loraDataHead data.length).bytes ++ (uint32Bytes dstAddr ++ data))) := by
  have hsum : loraGetCheckOf (loraGetCheckOf (loraGetCheckOf 0 (loraDataHead data.length).bytes)
    (uint32Bytes dstAddr)) data =
      loraSum ((loraDataHead data.length).bytes ++ (uint32Bytes dstAddr ++ data)) := by
    simp only [loraGetCheckOf_eq, loraSum, List.foldl_append]
  rw [← hsum]
  revert h
  simp only [loraSendBuffer]
  split
  · split
    · intro _
      simp
    · next hfail => exact fun h => absurd h hfail
  · exact fun h => absurd h (Int.lt_irrefl 0)

/-- The std head in front of data is read where the data are. -/
theorem readStdHead_data {memory : ℕ → UInt8} {n : ℕ} {rest : List UInt8}
    (h : ShowsAt memory 0 ((loraDataHead n).bytes ++ rest)) :
    readStdHead memory 0 = loraDataHead n :=
  readStdHead_eq (showsAt_append.mp h).1

/-- A sender's message is none that `__lora_std_parse_buffer` takes: it is a request. -/
theorem loraStdParseBuffer_request (addr : UInt32) (cmdHead : LoraCmdHead) (n : ℕ)
    (buffer : ℕ → UInt8) :
    loraStdParseBuffer addr cmdHead (loraDataHead n) buffer = .unknown := rfl

/-- With no more than 244 bytes the length fits into its byte. -/
theorem loraDataHead_msglen {n : ℕ} (h : n ≤ 244) : (loraDataHead n).msglen.toNat = n + 11 := by
  have hsize : loraStdHeadSize = 5 := rfl
  simp only [loraDataHead, UInt8.toNat_ofNat']
  omega

/-- So the std head passes the test. -/
theorem loraDataHead_passes {n : ℕ} (h : n ≤ 244) : (loraDataHead n).Passes := by
  have hpacktype : loraStdReq.toNat < loraStdMax := by decide
  have hmsgtype : loraStdMsgDataModbusRtu.toNat < loraStdMsgMax := by decide
  refine ⟨rfl, rfl, hpacktype, hmsgtype, ?_⟩
  rw [loraDataHead_msglen h]
  exact Nat.le_add_left 7 _

/-- The receiver takes the other lengths off again. -/
theorem loraDataHead_dataLen (n : ℕ) :
    (loraDataHead n).msglen - UInt8.ofNat loraStdHeadSize - 4 - 2 = UInt8.ofNat n := by
  refine UInt8.toNat.inj ?_
  have hsize : loraStdHeadSize = 5 := rfl
  simp only [loraDataHead, UInt8.toNat_sub, UInt8.toNat_ofNat', hsize]
  simp
  omega

/-- Bytes that `lora_send_buffer` writes with the data frame them if and only if they are no more
than 244. -/
theorem loraFrames_iff (dstAddr : UInt32) (data : List UInt8) :
    LoraFrames (((loraDataHead data.length).bytes ++ (uint32Bytes dstAddr ++ data)) ++
        uint16Bytes (loraSum ((loraDataHead data.length).bytes ++ (uint32Bytes dstAddr ++ data))))
        data dstAddr ↔
      data.length ≤ 244 := by
  obtain ⟨bytes, hbytes⟩ : ∃ bytes,
    bytes = ((loraDataHead data.length).bytes ++ (uint32Bytes dstAddr ++ data)) ++
    uint16Bytes (loraSum ((loraDataHead data.length).bytes ++ (uint32Bytes dstAddr ++ data))) :=
    ⟨_, rfl⟩
  rw [← hbytes]
  have hhead {memory : ℕ → UInt8} (h : ShowsAt memory 0 bytes) :
      readStdHead memory 0 = loraDataHead data.length := by
    rw [hbytes, List.append_assoc] at h
    exact readStdHead_data h
  have hlength : bytes.length = data.length + 11 := by
    simp [hbytes, LoraStdHead.bytes, uint32Bytes, uint16Bytes]
  constructor
  · intro h
    -- the byte of the length is less than 256
    have hmsglen := h.msglen _ (showsAt_getD bytes 0)
    have hlt := (readStdHead (fun n => bytes.getD n 0) 0).msglen.toNat_lt
    omega
  · intro hle
    have hmsglen := loraDataHead_msglen hle
    refine ⟨fun memory h => ?_, fun memory h => ?_, fun memory h => ?_, fun memory addr h => ?_⟩
    · rw [hhead h]
      rfl
    · rw [hhead h, hmsglen, hlength]
    · rw [hhead h]
      rw [hbytes] at h
      refine checkBuffer_of_sum (loraDataHead_passes hle) ?_ h
      rw [hmsglen, List.length_append]
      simp [loraStdHeadSize, uint32Bytes]
      omega
    · rw [hhead h]
      rw [hbytes, List.append_assoc, showsAt_append, List.append_assoc, showsAt_append,
        showsAt_append] at h
      obtain ⟨-, haddr, hdata, -⟩ := h
      have hp2p : (loraDataHead data.length).p2p = 0 := rfl
      have hlen : (UInt8.ofNat data.length).toNat = data.length := by
        rw [UInt8.toNat_ofNat']
        omega
      simp only [loraData, if_pos hp2p, loraDataHead_dataLen, hlen, Prod.mk.injEq]
      refine ⟨(readUInt32_eq_iff _ 0 dstAddr).mpr (showsAt_from.mpr haddr), ?_⟩
      have hbehind : ShowsAt (fun n => memory (loraStdHeadSize + n)) 4 data := showsAt_from.mpr hdata
      exact hbehind.map_range

/-- What `lora_send_buffer` writes behind the command head when it accepts data for Modbus RTU is
one packet from which the data come back, if and only if they are no more than 244 bytes. -/
theorem lora_send_round_trip_iff (serial : Bool) (send : List UInt8 → ℤ) (maddr dstAddr : UInt32)
    (data : List UInt8)
    (haccept : 0 < (loraSendBuffer serial send maddr dstAddr
      (some data) loraStdMsgDataModbusRtu).result) :
    LoraFrames ((loraSendBuffer serial send maddr dstAddr
      (some data) loraStdMsgDataModbusRtu).written.drop 1).flatten data
      dstAddr ↔ data.length ≤ 244 := by
  rw [loraSendBuffer_written haccept]
  exact loraFrames_iff dstAddr data

/-- A request of eight bytes. -/
theorem lora_send_round_trip_eight :
    LoraFrames ((loraSendBuffer true (fun bytes => bytes.length) 1 2
      (some [1, 3, 0, 0, 0, 1, 0x84, 0x0A])
      loraStdMsgDataModbusRtu).written.drop 1).flatten [1, 3, 0, 0, 0, 1, 0x84, 0x0A] 2 :=
  (lora_send_round_trip_iff true (fun bytes => bytes.length) 1 2 [1, 3, 0, 0, 0, 1, 0x84, 0x0A]
    (by decide)).mpr (by decide)

/-- With 245 bytes the length in the std head is zero. -/
theorem lora_send_not_round_trip :
    ¬ ∀ (serial : Bool) (send : List UInt8 → ℤ) (maddr dstAddr : UInt32) (data : List UInt8),
      0 < (loraSendBuffer serial send maddr dstAddr (some data) loraStdMsgDataModbusRtu).result →
      LoraFrames ((loraSendBuffer serial send maddr dstAddr
      (some data) loraStdMsgDataModbusRtu).written.drop 1).flatten data
        dstAddr := by
  intro hall
  have haccept : 0 < (loraSendBuffer true (fun bytes => bytes.length) 1 2 (some (List.replicate 245 0))
      loraStdMsgDataModbusRtu).result := by
    rw [loraSendBuffer_result 2 _ (by rw [List.length_replicate]; decide) (by decide),
      List.length_replicate]
    decide
  have hframes := hall true (fun bytes => bytes.length) 1 2 (List.replicate 245 0) haccept
  rw [loraSendBuffer_written haccept] at hframes
  have hle := (loraFrames_iff 2 (List.replicate 245 0)).mp hframes
  rw [List.length_replicate] at hle
  omega

end DasEdge.Lora
