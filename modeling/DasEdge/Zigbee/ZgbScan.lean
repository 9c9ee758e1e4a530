import DasEdge.Wireless.NodeRouting
import DasEdge.Zigbee.ZgbStd

/-!
# The announcement of a Zigbee node

A node answers a scan request with its own slave address and those in the tables of the ports that
it forwards to. `eZigbeeSendStdLstRsp` goes over them twice: it counts them in eight bits, and then
writes them to an array of that size with a counter of eight bits. So with more than 255 addresses
the array is too small, or nothing is announced.
-/

namespace DasEdge.Zigbee

open DasEdge.Library DasEdge.Board DasEdge.Wireless

/-- `xfer_uart_cfg_t` of a port, with its flag in `g_xfer_net_dst_uart_dtu`. -/
structure XferUartCfg where
  enable : Bool
  dtu : Bool
  count : ℤ
  addrs : ℕ → UInt8

/-- The fields of `g_zigbee_cfg` that a scan response is made of. -/
structure ZigbeeCfg where
  btSlaveAddr : UInt8
  nProtoType : ℤ
  workMode : UInt8
  addr : UInt16
  dstAddr : UInt16
  mac : List UInt8
  mac_length : mac.length = 8

/-- `zgb_std_scan_req_t` -/
structure ZgbStdScanReq where
  netid : UInt16
  mac : List UInt8
  type : UInt8
  learnstep : UInt16

/-- `ZIGBEE_WORK_COORDINATOR` -/
def zigbeeWorkCoordinator : UInt8 := 2

/-- The addresses of a port that is forwarded to. -/
def XferUartCfg.forwarded (table : XferUartCfg) : List UInt8 :=
  if table.enable && table.dtu && 0 < table.count
    then (List.range table.count.toNat).map table.addrs else []

/-- The addresses that both loops go over. -/
def zgbAddrs (cfg : ZigbeeCfg) (tables : List XferUartCfg) : List UInt8 :=
  (if 0 < cfg.btSlaveAddr then [cfg.btSlaveAddr] else []) ++ tables.flatMap XferUartCfg.forwarded

/-- The first loop: `cnt` -/
def zgbCount (addrs : List UInt8) : UInt8 := addrs.foldl (fun cnt _ => cnt + 1) 0

/-- The second loop: `cnt`, and what is written to the array, each with its place. -/
def zgbWrite (addrs : List UInt8) : UInt8 × List (UInt8 × ℕ) :=
  addrs.foldl (fun s a => (s.1 + 1, s.2 ++ [(a, s.1.toNat)])) (0, [])

/-- The array after writes; it is allocated with zeros. -/
def zgbArray (writes : List (UInt8 × ℕ)) : ℕ → UInt8 :=
  writes.foldl (fun array w => Function.update array w.2 w.1) fun _ => 0

/-- The bytes of a head. -/
def ZgbStdHead.bytes (head : ZgbStdHead) : List UInt8 :=
  uint32Bytes head.pre ++ (uint32Bytes head.npre ++ (head.ver :: (uint16Bytes head.msglen ++
    [head.seq, head.packtype, head.msgtype])))

/-- The bytes of a `zgb_std_scan_t` in front of its addresses. -/
def zgbScanBytes (info : ZgbStdScan) : List UInt8 :=
  info.workmode :: (uint16Bytes info.netid ++ (info.mac ++ [info.rssi, info.type, info.cnt]))

/-- What a scan response is made with and what it does: the bytes allocated for the addresses, the
writes to them, the bytes sent, the new `ulLearnStep`, and the coordinator that is registered on the
node itself. -/
structure ZgbListRsp where
  allocated : ℕ
  writes : List (UInt8 × ℕ)
  bytes : List UInt8
  learnStep : UInt32
  coordinator : ZgbStdScan

/-- The head of a scan response with `cnt` addresses. -/
def zgbScanRspHead (cnt : UInt8) : ZgbStdHead where
  pre := zgbStdPre
  npre := zgbStdNpre
  ver := 0
  msglen := UInt16.ofNat (zgbStdHeadSize + zgbStdScanOfs + cnt.toNat + 4)
  seq := 0
  packtype := zgbStdFaRsp
  msgtype := zgbStdMsgScan

/-- The announcement with `cnt` addresses. -/
def zgbScanRspInfo (cfg : ZigbeeCfg) (rssi cnt : UInt8) (data : ℕ → UInt8) : ZgbStdScan where
  workmode := cfg.workMode
  netid := cfg.addr
  mac := cfg.mac
  rssi := rssi
  type := snTModbusRtu
  cnt := cnt
  data := data

/-- The scan response, when the memory for the addresses is there or not. -/
def zgbListRsp (cfg : ZigbeeCfg) (addrs : List UInt8) (req : ZgbStdScanReq) (rssi : UInt8)
    (calloc : Bool) : ZgbListRsp :=
  let count := zgbCount addrs
  let allocated := if 0 < count && calloc then count.toNat else 0
  let (cnt, writes) := if 0 < count && calloc then zgbWrite addrs else (0, [])
  let head := (zgbScanRspHead cnt).bytes
  let info := zgbScanRspInfo cfg rssi cnt (zgbArray writes)
  let sent := if 0 < cnt then (List.range cnt.toNat).map (zgbArray writes) else []
  let crc := ulRTCrc32 0 head
  let crc := ulRTCrc32 crc (zgbScanBytes info)
  let crc := if 0 < cnt then ulRTCrc32 crc sent else crc
  { allocated := allocated, writes := writes,
    bytes := head ++ (zgbScanBytes info ++ (sent ++ uint32Bytes crc)),
    learnStep := if req.learnstep = 0 then 30 else req.learnstep.toUInt32,
    coordinator :=
    { info with workmode := zigbeeWorkCoordinator, netid := req.netid, mac := req.mac, cnt := 0 } }

/-- `eZigbeeSendStdLstRsp`: the response, if there is one. The radio answers whether it takes the
network id, and with the signal. -/
def eZigbeeSendStdLstRsp (cfg : ZigbeeCfg) (tables : List XferUartCfg) (req : ZgbStdScanReq)
    (setDstAddr : UInt16 → Bool)
    (rssi : UInt8) (calloc : Bool) : Option ZgbListRsp :=
  if req.netid ≠ cfg.dstAddr ∧ setDstAddr req.netid = false then none
  else if cfg.nProtoType = req.type.toNat
    then some (zgbListRsp cfg (zgbAddrs cfg tables) req rssi calloc)
  else none

/-- A response announces addresses: the array is written in bounds, the receiver accepts the bytes
wherever they lie, and when it registers what it takes from them, in any registry, the node
advertises exactly the addresses. -/
structure ZgbAnnounces (rsp : ZgbListRsp) (addrs : List UInt8) : Prop where
  writes : ∀ w ∈ rsp.writes, w.2 < rsp.allocated
  accepted : ∀ memory, ShowsAt memory 0 rsp.bytes → zgbCheckBuffer memory = true
  registers : ∀ memory isNode, ShowsAt memory 0 rsp.bytes → ∃ info,
    (zgbParse isNode ⟨rsp.bytes.length, memory⟩).response = some info ∧
    ∀ fuel reg entries now p q, Registered reg entries → EntriesFit fuel entries →
      reg.mnodes p = none → reg.snodes q = none →
      ∃ out reg' entries', zgbMnodeInsert fuel reg info now p q = some (out, reg') ∧
        Registered reg' entries' ∧
        ∃ e ∈ entries', e.netid = info.netid ∧ ∀ addr, e.Advertises snTModbusRtu.toNat addr ↔
          ∃ a ∈ addrs, (a.toNat : ℤ) = addr

/-- The first loop counts in eight bits. -/
theorem zgbCount_toNat (addrs : List UInt8) : (zgbCount addrs).toNat = addrs.length % 256 := by
  have hfold (cnt : UInt8) : (addrs.foldl (fun cnt _ => cnt + 1) cnt).toNat =
      (cnt.toNat + addrs.length) % 256 := by
    induction addrs generalizing cnt with
    | nil =>
      have hlt := cnt.toNat_lt
      simp only [List.foldl_nil, List.length_nil]
      omega
    | cons a addrs ih =>
      rw [List.foldl_cons, ih]
      simp only [UInt8.toNat_add, UInt8.toNat_ofNat, List.length_cons]
      omega
  rw [zgbCount, hfold]
  simp

/-- As long as the counter does not wrap, the second loop writes one address behind the other. -/
theorem zgbWrite_from (addrs : List UInt8) (cnt : UInt8) (writes : List (UInt8 × ℕ))
    (h : cnt.toNat + addrs.length ≤ 256) :
    addrs.foldl (fun s a => (s.1 + 1, s.2 ++ [(a, s.1.toNat)])) (cnt, writes) =
      (cnt + UInt8.ofNat addrs.length, writes ++ addrs.zipIdx cnt.toNat) := by
  induction addrs generalizing cnt writes with
  | nil =>
    have hzero : cnt + UInt8.ofNat 0 = cnt := UInt8.toNat.inj (by simp)
    simp only [List.foldl_nil, List.length_nil, List.zipIdx_nil, List.append_nil, hzero]
  | cons a addrs ih =>
    rw [List.length_cons] at h
    rw [List.foldl_cons, List.zipIdx_cons]
    dsimp only
    rcases Nat.lt_or_ge (cnt.toNat + 1) 256 with hlt | hge
    · have hnext : (cnt + 1).toNat = cnt.toNat + 1 := by
        rw [UInt8.toNat_add]
        exact Nat.mod_eq_of_lt hlt
      have hsum : cnt + 1 + UInt8.ofNat addrs.length = cnt + UInt8.ofNat (addrs.length + 1) := by
        refine UInt8.toNat.inj ?_
        simp
        omega
      rw [ih (cnt + 1) _ (by omega), hnext, hsum, List.append_assoc]
      rfl
    · obtain rfl : addrs = [] := List.length_eq_zero_iff.mp (by omega)
      rfl

/-- An array after writes one behind the other. -/
theorem zgbArray_zipIdx (addrs : List UInt8) (first : ℕ) (array : ℕ → UInt8) (i : ℕ)
    (hi : i < addrs.length) :
    (addrs.zipIdx first).foldl (fun array w => Function.update array w.2 w.1) array (first + i) =
      addrs[i] := by
  induction addrs generalizing first array i with
  | nil => cases hi
  | cons a addrs ih =>
    rw [List.zipIdx_cons, List.foldl_cons]
    cases i with
    | zero =>
      have hkeep (xs : List UInt8) (k : ℕ) (array : ℕ → UInt8) (hk : first < k) :
          (xs.zipIdx k).foldl (fun array w => Function.update array w.2 w.1) array first =
            array first := by
        induction xs generalizing k array with
        | nil => rfl
        | cons x xs ih =>
          rw [List.zipIdx_cons, List.foldl_cons, ih (k + 1) _ (by omega),
            Function.update_of_ne (by dsimp only; omega)]
      exact (hkeep addrs (first + 1) _ (Nat.lt_succ_self first)).trans (Function.update_self ..)
    | succ i =>
      have hplace : first + (i + 1) = first + 1 + i := by omega
      rw [hplace]
      exact ih (first + 1) _ i (by simpa using hi)

/-- The head is read where its bytes are. -/
theorem readZgbHead_eq {buf : ℕ → UInt8} {pos : ℕ} {head : ZgbStdHead}
    (h : ShowsAt buf pos head.bytes) :
    readZgbHead buf pos = head := by
  simp only [ZgbStdHead.bytes, showsAt_append, showsAt_cons] at h
  obtain ⟨hpre, hnpre, hver, hmsglen, hseq, hpacktype, hmsgtype, -⟩ := h
  obtain ⟨pre, npre, ver, msglen, seq, packtype, msgtype⟩ := head
  simp only [readZgbHead, ZgbStdHead.mk.injEq]
  exact ⟨(readUInt32_eq_iff _ _ _).mpr hpre, (readUInt32_eq_iff _ _ _).mpr hnpre, hver,
    (uint16_eq_iff _ _ _).mpr hmsglen,
    hseq, hpacktype, hmsgtype⟩

/-- A packet checks when its head passes and states the length, and the checksum is behind. -/
theorem zgbCheckBuffer_of_crc {head : ZgbStdHead} {buffer : ℕ → UInt8} {body : List UInt8}
    (hpasses : head.Passes)
    (hmsglen : head.msglen.toNat = zgbStdHeadSize + body.length + 4)
    (hshows : ShowsAt buffer 0 ((head.bytes ++ body) ++
      uint32Bytes (ulRTCrc32 0 (head.bytes ++ body)))) :
    zgbCheckBuffer buffer = true := by
  have hlength : head.msglen.toNat - 4 = (head.bytes ++ body).length := by
    rw [hmsglen, List.length_append, Nat.add_sub_cancel]
    rfl
  rw [showsAt_append, Nat.zero_add] at hshows
  obtain ⟨hsummed, hcrc⟩ := hshows
  have hbytes := hsummed.map_range
  simp only [Nat.zero_add] at hbytes
  simp only [zgbCheckBuffer, readZgbHead_eq (showsAt_append.mp hsummed).1, if_pos hpasses, hlength,
    hbytes, decide_eq_true_eq]
  exact (readUInt32_eq_iff _ _ _).mpr hcrc

/-- The bytes of a scan response without the checksum. -/
def zgbScanRspBody (cfg : ZigbeeCfg) (rssi cnt : UInt8) (data : ℕ → UInt8) : List UInt8 :=
  zgbScanBytes (zgbScanRspInfo cfg rssi cnt data) ++ (List.range cnt.toNat).map data

/-- Its length. -/
theorem zgbScanRspBody_length (cfg : ZigbeeCfg) (rssi cnt : UInt8) (data : ℕ → UInt8) :
    (zgbScanRspBody cfg rssi cnt data).length = zgbStdScanOfs + cnt.toNat := by
  simp [zgbScanRspBody, zgbScanBytes, zgbScanRspInfo, uint16Bytes, cfg.mac_length, zgbStdScanOfs]
  omega

/-- The head of a scan response states the length. -/
theorem zgbScanRspHead_msglen (cnt : UInt8) :
    (zgbScanRspHead cnt).msglen.toNat = zgbStdHeadSize + (zgbStdScanOfs + cnt.toNat) + 4 := by
  have hlt := cnt.toNat_lt
  have hsize : zgbStdHeadSize = 14 := rfl
  have hofs : zgbStdScanOfs = 14 := rfl
  simp only [zgbScanRspHead, UInt16.toNat_ofNat']
  omega

/-- It passes. -/
theorem zgbScanRspHead_passes (cnt : UInt8) : (zgbScanRspHead cnt).Passes := by
  refine ⟨rfl, rfl, rfl, ?_⟩
  rw [zgbScanRspHead_msglen]
  exact Nat.le_add_left 4 _

/-- The bytes of a scan response. -/
def zgbScanRspBytes (cfg : ZigbeeCfg) (rssi cnt : UInt8) (data : ℕ → UInt8) : List UInt8 :=
  ((zgbScanRspHead cnt).bytes ++ zgbScanRspBody cfg rssi cnt data) ++
    uint32Bytes (ulRTCrc32 0 ((zgbScanRspHead cnt).bytes ++ zgbScanRspBody cfg rssi cnt data))

/-- They check. -/
theorem zgbScanRsp_checks {cfg : ZigbeeCfg} {rssi cnt : UInt8} {data memory : ℕ → UInt8}
    (h : ShowsAt memory 0 (zgbScanRspBytes cfg rssi cnt data)) : zgbCheckBuffer memory = true := by
  refine zgbCheckBuffer_of_crc (zgbScanRspHead_passes cnt) ?_ h
  rw [zgbScanRspHead_msglen, zgbScanRspBody_length]

/-- The announcement at a place is that of a scan response where its bytes are. -/
theorem readZgbScan_addrs {buf : ℕ → UInt8} {pos : ℕ} {cfg : ZigbeeCfg} {rssi cnt : UInt8}
    {data : ℕ → UInt8}
    (h : ShowsAt buf pos (zgbScanRspBody cfg rssi cnt data)) :
    (readZgbScan buf pos).netid = cfg.addr ∧ (readZgbScan buf pos).type = snTModbusRtu ∧
      (readZgbScan buf pos).addrs = (List.range cnt.toNat).map data := by
  have hinfo : (zgbScanBytes (zgbScanRspInfo cfg rssi cnt data)).length = zgbStdScanOfs := by
    simp [zgbScanBytes, zgbScanRspInfo, uint16Bytes, cfg.mac_length, zgbStdScanOfs]
  rw [zgbScanRspBody, showsAt_append, hinfo] at h
  obtain ⟨hscan, hdata⟩ := h
  simp only [zgbScanBytes, zgbScanRspInfo, showsAt_append, showsAt_cons, cfg.mac_length] at hscan
  obtain ⟨-, hnetid, -, -, htype, hcnt, -⟩ := hscan
  have hcount : (readZgbScan buf pos).cnt = cnt := hcnt
  refine ⟨(uint16_eq_iff _ _ _).mpr hnetid, htype, ?_⟩
  have hread := hdata.map_range
  rw [List.length_map, List.length_range] at hread
  rw [SnodeInfo.addrs, hcount]
  exact hread

/-- What is registered from a scan response that checks. -/
theorem zgbParse_response {len : ℕ} {memory : ℕ → UInt8} (isNode : Bool)
    (hlen : zgbStdHeadSize + 4 ≤ len)
    (hcheck : zgbCheckBuffer memory = true) (hpacktype : (readZgbHead memory 0).packtype = zgbStdFaRsp)
    (hmsgtype : (readZgbHead memory 0).msgtype = zgbStdMsgScan) :
    ∃ buf, (zgbParse isNode ⟨len, memory⟩).response = some (readZgbScan buf zgbStdHeadSize) ∧
      ∀ n < (readZgbHead memory 0).msglen.toNat - 4, buf n = memory n := by
  simp only [zgbParse, if_pos hlen, hcheck, if_true, hpacktype, hmsgtype, and_self]
  exact ⟨_, rfl, fun n hn => if_neg fun h => Nat.not_lt.mpr h.1 hn⟩

/-- The addresses are received. -/
theorem zgbScanRsp_received {cfg : ZigbeeCfg} {rssi cnt : UInt8} {data memory : ℕ → UInt8}
    (h : ShowsAt memory 0 (zgbScanRspBytes cfg rssi cnt data)) (isNode : Bool) :
    ∃ info, (zgbParse isNode ⟨(zgbScanRspBytes cfg rssi cnt data).length, memory⟩).response =
      some info ∧
      info.netid = cfg.addr ∧ info.type = snTModbusRtu ∧
      info.addrs = (List.range cnt.toNat).map data := by
  have hcheck := zgbScanRsp_checks h
  have hlength : (zgbScanRspBytes cfg rssi cnt data).length = zgbStdHeadSize +
      (zgbStdScanOfs + cnt.toNat) + 4 := by
    rw [zgbScanRspBytes, List.length_append, List.length_append, zgbScanRspBody_length]
    rfl
  rw [zgbScanRspBytes, List.append_assoc, showsAt_append, showsAt_append] at h
  obtain ⟨hhead, hbody, -⟩ := h
  have hread := readZgbHead_eq hhead
  have hlen : zgbStdHeadSize + 4 ≤ (zgbScanRspBytes cfg rssi cnt data).length := by
    rw [hlength]
    omega
  have hpacktype : (readZgbHead memory 0).packtype = zgbStdFaRsp := congrArg ZgbStdHead.packtype hread
  have hmsgtype : (readZgbHead memory 0).msgtype = zgbStdMsgScan := congrArg ZgbStdHead.msgtype hread
  obtain ⟨buf, hresponse, hkeep⟩ := zgbParse_response isNode hlen hcheck hpacktype hmsgtype
  have hbody' : ShowsAt buf zgbStdHeadSize (zgbScanRspBody cfg rssi cnt data) := by
    intro i hi
    rw [hkeep]
    · exact hbody i hi
    · rw [zgbScanRspBody_length] at hi
      rw [hread, zgbScanRspHead_msglen]
      omega
  exact ⟨_, hresponse, readZgbScan_addrs hbody'⟩

/-- The bytes of the response that is made. -/
theorem zgbListRsp_bytes (cfg : ZigbeeCfg) (addrs : List UInt8) (req : ZgbStdScanReq) (rssi : UInt8)
    (calloc : Bool) :
    (zgbListRsp cfg addrs req rssi calloc).bytes =
      let sent := if 0 < zgbCount addrs && calloc then zgbWrite addrs else (0, [])
      zgbScanRspBytes cfg rssi sent.1 (zgbArray sent.2) := by
  obtain ⟨⟨cnt, writes⟩, hsent⟩ : ∃ sent,
    (if 0 < zgbCount addrs && calloc then zgbWrite addrs else (0, [])) = sent := ⟨_, rfl⟩
  -- with no address there is nothing to send and to sum
  have hnone (h : ¬ 0 < cnt) (array : ℕ → UInt8) : (List.range cnt.toNat).map array = [] := by
    have hzero : cnt.toNat = 0 := Nat.eq_zero_of_not_pos fun hpos => h (UInt8.lt_iff_toNat_lt.mpr hpos)
    rw [hzero]
    rfl
  have hlist (array : ℕ → UInt8) : (if 0 < cnt then (List.range cnt.toNat).map array else []) =
      (List.range cnt.toNat).map array := by
    split
    · rfl
    · next h => rw [hnone h]
  have hcrc (crc : UInt32) (array : ℕ → UInt8) :
      (if 0 < cnt then ulRTCrc32 crc ((List.range cnt.toNat).map array) else crc) =
        ulRTCrc32 crc ((List.range cnt.toNat).map array) := by
    split
    · rfl
    · next h => rw [hnone h, ulRTCrc32_nil]
  simp only [zgbListRsp, hsent, hlist, hcrc, zgbScanRspBytes, zgbScanRspBody, ulRTCrc32_append,
    List.append_assoc]

/-- After an announcement is registered its node advertises the addresses that are stored. -/
theorem zgbMnodeInsert_advertises {reg : ZgbNodes} {entries : List (NodeEntry UInt16 ZgbMnode)}
    (hreg : Registered reg entries)
    {fuel : ℕ} (hfit : EntriesFit fuel entries) {p q : ℕ} (hp : reg.mnodes p = none)
    (hq : reg.snodes q = none)
    (info : ZgbStdScan) (now : UInt32) :
    ∃ out reg' entries', zgbMnodeInsert fuel reg info now p q = some (out, reg') ∧
      Registered reg' entries' ∧
      (∃ e ∈ entries', e.netid = info.netid) ∧
      ∀ e ∈ entries', e.netid = info.netid → ∀ addr, e.Advertises info.type.toNat addr ↔
        ∃ a ∈ info.lst, (a.toNat : ℤ) = addr := by
  obtain ⟨out, reg', hstep, hreg'⟩ := hreg.step hfit (ZgbNodeOp.insert info now p q).call ⟨hp, hq⟩
  obtain ⟨-, hannounced⟩ := nodeStepOk entries (ZgbNodeOp.insert info now p q).call
  obtain ⟨e, he, hnetid, x, hx, hdata⟩ :=
    hannounced info.netid info.type info.toSnodeInfo (if_pos ⟨rfl, rfl⟩)
  refine ⟨out, reg', _, hstep, hreg', ⟨e, he, hnetid⟩, fun e' he' hnetid' addr => ?_⟩
  -- a network id occurs once, and a type once in a node
  obtain rfl : e' = e := List.inj_on_of_nodup_map hreg'.netids he' he (hnetid'.trans hnetid.symm)
  constructor
  · rintro ⟨y, hy, htype, a, ha, haddr⟩
    have hsame : y.2.type = x.2.type := by
      rw [hdata]
      exact UInt8.toNat.inj htype
    obtain rfl : y = x := List.inj_on_of_nodup_map (hreg'.types e' he') hy hx hsame
    rw [hdata] at ha
    exact ⟨a, ha, haddr⟩
  · rintro ⟨a, ha, haddr⟩
    exact ⟨x, hx, by rw [hdata], a, by rw [hdata]; exact ha, haddr⟩

/-- The second loop only adds writes. -/
theorem mem_zgbWrite_of_mem (addrs : List UInt8) {s : UInt8 × List (UInt8 × ℕ)} {w : UInt8 × ℕ}
    (hw : w ∈ s.2) :
    w ∈ (addrs.foldl (fun s a => (s.1 + 1, s.2 ++ [(a, s.1.toNat)])) s).2 := by
  induction addrs generalizing s with
  | nil => exact hw
  | cons a addrs ih => exact ih (List.mem_append_left _ hw)

/-- With more than 255 addresses one is written to the place 255. -/
theorem zgbWrite_last {addrs : List UInt8} (h : 255 < addrs.length) :
    ∃ a, (a, 255) ∈ (zgbWrite addrs).2 := by
  have hlength : (addrs.take 256).length = 256 := by
    rw [List.length_take]
    exact Nat.min_eq_left h
  have hfirst := zgbWrite_from (addrs.take 256) 0 [] (by rw [hlength]; exact Nat.le_refl 256)
  refine ⟨addrs[255], ?_⟩
  have hsplit : zgbWrite addrs = (addrs.take 256 ++ addrs.drop 256).foldl
      (fun s a => (s.1 + 1, s.2 ++ [(a, s.1.toNat)])) (0, []) := by
    rw [List.take_append_drop, zgbWrite]
  rw [hsplit, List.foldl_append, hfirst]
  refine mem_zgbWrite_of_mem _ ?_
  rw [List.nil_append, UInt8.toNat_zero, List.mem_zipIdx_iff_getElem?,
    List.getElem?_take_of_lt (Nat.lt_succ_self 255)]
  exact List.getElem?_eq_getElem h

/-- What the loops leave when the addresses fit and there is memory for them. -/
theorem zgbSent_eq {addrs : List UInt8} {calloc : Bool} (hlength : addrs.length ≤ 255)
    (hcalloc : calloc = true ∨ addrs = []) :
    (if 0 < zgbCount addrs && calloc then zgbWrite addrs else (0, [])) =
      (UInt8.ofNat addrs.length, addrs.zipIdx) ∧
      (if 0 < zgbCount addrs && calloc then (zgbCount addrs).toNat else 0) = addrs.length := by
  have hcount := zgbCount_toNat addrs
  rw [Nat.mod_eq_of_lt (by omega)] at hcount
  by_cases hpos : 0 < zgbCount addrs
  · have hne : addrs ≠ [] := by
      rintro rfl
      exact absurd hpos (by decide)
    obtain rfl := hcalloc.resolve_right hne
    have hwrite := zgbWrite_from addrs 0 [] (by rw [UInt8.toNat_zero]; omega)
    rw [UInt8.zero_add, List.nil_append] at hwrite
    simp only [hpos, decide_true, Bool.and_true, if_true]
    exact ⟨hwrite, hcount⟩
  · have hzero : addrs.length = 0 := by
      rw [UInt8.lt_iff_toNat_lt, UInt8.toNat_zero] at hpos
      omega
    obtain rfl := List.length_eq_zero_iff.mp hzero
    exact ⟨rfl, rfl⟩

/-- What is registered from the response makes the node advertise the addresses that were sent. -/
theorem zgbListRsp_registers (cfg : ZigbeeCfg) (addrs : List UInt8) (req : ZgbStdScanReq)
    (rssi : UInt8) (calloc : Bool)
    {memory : ℕ → UInt8} (h : ShowsAt memory 0 (zgbListRsp cfg addrs req rssi calloc).bytes)
    (isNode : Bool) :
    let sent := if 0 < zgbCount addrs && calloc then zgbWrite addrs else (0, [])
    ∃ info, (zgbParse isNode ⟨(zgbListRsp cfg addrs req rssi calloc).bytes.length,
      memory⟩).response = some info ∧
      ∀ fuel reg entries now p q, Registered reg entries → EntriesFit fuel entries →
        reg.mnodes p = none → reg.snodes q = none →
        ∃ out reg' entries', zgbMnodeInsert fuel reg info now p q = some (out, reg') ∧
          Registered reg' entries' ∧
          (∃ e ∈ entries', e.netid = info.netid) ∧ ∀ e ∈ entries', e.netid = info.netid → ∀ addr,
            e.Advertises snTModbusRtu.toNat addr ↔
            ∃ a ∈ (List.range sent.1.toNat).map (zgbArray sent.2), (a.toNat : ℤ) = addr := by
  rw [zgbListRsp_bytes] at h ⊢
  obtain ⟨info, hresponse, -, htype, haddrs⟩ := zgbScanRsp_received h isNode
  refine ⟨info, hresponse, fun fuel reg entries now p q hreg hfit hp hq => ?_⟩
  obtain ⟨out, reg', entries', hinsert, hreg', hthere, hadvertises⟩ :=
    zgbMnodeInsert_advertises hreg hfit hp hq info now
  have hlst : info.lst = info.addrs := if_pos (.inl htype)
  rw [htype, hlst, haddrs] at hadvertises
  exact ⟨out, reg', entries', hinsert, hreg', hthere, hadvertises⟩

/-- A response announces the addresses if and only if they are no more than 255, and there is memory
for them. -/
theorem zgbListRsp_announces_iff (cfg : ZigbeeCfg) (addrs : List UInt8) (req : ZgbStdScanReq)
    (rssi : UInt8) (calloc : Bool) :
    ZgbAnnounces (zgbListRsp cfg addrs req rssi calloc) addrs ↔ addrs.length ≤ 255 ∧
      (calloc = true ∨ addrs = []) := by
  have hwrites : (zgbListRsp cfg addrs req rssi calloc).writes =
      (if 0 < zgbCount addrs && calloc then zgbWrite addrs else (0, [])).2 := rfl
  have hallocated : (zgbListRsp cfg addrs req rssi calloc).allocated =
      if 0 < zgbCount addrs && calloc then (zgbCount addrs).toNat else 0 := rfl
  constructor
  · intro h
    by_cases hsent : (decide (0 < zgbCount addrs) && calloc) = true
    · -- the place 255 is not among those allocated
      obtain ⟨-, hcalloc⟩ := Bool.and_eq_true_iff.mp hsent
      refine ⟨?_, .inl hcalloc⟩
      by_contra hmore
      obtain ⟨a, ha⟩ := zgbWrite_last (Nat.lt_of_not_le hmore)
      have hlt := h.writes (a, 255) (by rw [hwrites, if_pos hsent]; exact ha)
      rw [hallocated, if_pos hsent] at hlt
      have hcount := (zgbCount addrs).toNat_lt
      dsimp only at hlt
      omega
    · -- no address is sent
      have hshows := showsAt_getD (zgbListRsp cfg addrs req rssi calloc).bytes 0
      obtain ⟨info, hresponse, hregisters⟩ := h.registers _ true hshows
      obtain ⟨info', hresponse', hadvertises⟩ :=
        zgbListRsp_registers cfg addrs req rssi calloc hshows true
      obtain rfl := Option.some.inj (hresponse.symm.trans hresponse')
      have hempty : Registered (emptyNodeRegistry : ZgbNodes) [] :=
        registered_nil rfl (fun _ => rfl) fun _ => rfl
      have hfit : EntriesFit 1 ([] : List (NodeEntry UInt16 ZgbMnode)) :=
        ⟨Nat.zero_lt_one, fun e he => absurd he List.not_mem_nil⟩
      obtain ⟨out, reg, entries, hinsert, hreg, e, he, hnetid, hall⟩ :=
        hregisters 1 _ [] 0 0 0 hempty hfit rfl rfl
      obtain ⟨out', reg', entries', hinsert', hreg', -, hnone⟩ :=
        hadvertises 1 _ [] 0 0 0 hempty hfit rfl rfl
      rw [hinsert] at hinsert'
      obtain ⟨rfl, rfl⟩ := Prod.mk.inj (Option.some.inj hinsert')
      obtain rfl := hreg.unique hreg'
      have haddrs : addrs = [] := by
        refine List.eq_nil_iff_forall_not_mem.mpr fun a ha => ?_
        obtain ⟨b, hb, -⟩ := (hnone e he hnetid _).mp ((hall _).mpr ⟨a, ha, rfl⟩)
        rw [if_neg hsent] at hb
        exact absurd hb List.not_mem_nil
      rw [haddrs]
      exact ⟨Nat.zero_le 255, .inr rfl⟩
  · rintro ⟨hlength, hcalloc⟩
    obtain ⟨hsent, hsize⟩ := zgbSent_eq hlength hcalloc
    have hlist : (List.range (UInt8.ofNat addrs.length).toNat).map (zgbArray addrs.zipIdx) = addrs := by
      rw [UInt8.toNat_ofNat', Nat.mod_eq_of_lt (by omega)]
      refine List.ext_getElem (by simp) fun i hi hi' => ?_
      have hget := zgbArray_zipIdx addrs 0 (fun _ => 0) i hi'
      rw [Nat.zero_add] at hget
      rw [List.getElem_map, List.getElem_range]
      exact hget
    refine ⟨fun w hw => ?_, fun memory hshows => ?_, fun memory isNode hshows => ?_⟩
    · rw [hwrites, hsent] at hw
      rw [hallocated, hsize]
      exact List.snd_lt_of_mem_zipIdx hw
    · rw [zgbListRsp_bytes] at hshows
      exact zgbScanRsp_checks hshows
    · obtain ⟨info, hresponse, hregisters⟩ :=
        zgbListRsp_registers cfg addrs req rssi calloc hshows isNode
      rw [hsent, hlist] at hregisters
      refine ⟨info, hresponse, fun fuel reg entries now p q hreg hfit hp hq => ?_⟩
      obtain ⟨out, reg', entries', hinsert, hreg', ⟨e, he, hnetid⟩, hadvertises⟩ :=
        hregisters fuel reg entries now p q hreg hfit hp hq
      exact ⟨out, reg', entries', hinsert, hreg', e, he, hnetid, hadvertises e he hnetid⟩

/-- The scan response that is built announces exactly the node's addresses, if and only if they are
no more than 255 and there is memory for them. -/
theorem zgb_announcement_iff (cfg : ZigbeeCfg) (tables : List XferUartCfg) (req : ZgbStdScanReq)
    (setDstAddr : UInt16 → Bool)
    (rssi : UInt8) (calloc : Bool) (rsp : ZgbListRsp)
    (hrsp : eZigbeeSendStdLstRsp cfg tables req setDstAddr rssi calloc = some rsp) :
    ZgbAnnounces rsp (zgbAddrs cfg tables) ↔
      (zgbAddrs cfg tables).length ≤ 255 ∧ (calloc = true ∨ zgbAddrs cfg tables = []) := by
  unfold eZigbeeSendStdLstRsp at hrsp
  split at hrsp
  · cases hrsp
  · split at hrsp
    · obtain rfl := Option.some.inj hrsp
      exact zgbListRsp_announces_iff cfg _ req rssi calloc
    · cases hrsp

/-- A node with one address of its own and two behind a port. -/
theorem zgb_announcement_three :
    ZgbAnnounces
      (zgbListRsp ⟨1, 0, 1, 8, 7, List.replicate 8 0, rfl⟩ [1, 5, 6] ⟨7, List.replicate 8 0, 0,
        30⟩ 80 true) [1, 5, 6] :=
  (zgb_announcement_iff ⟨1, 0, 1, 8, 7, List.replicate 8 0, rfl⟩
    [⟨true, true, 2, fun j => [5, 6].getD j 0⟩]
    ⟨7, List.replicate 8 0, 0, 30⟩ (fun _ => true) 80 true _ rfl).mpr ⟨by decide, .inl rfl⟩

/-- With the own address and 64 behind each of four ports, the array has one byte. -/
theorem zgb_announcement_not_all :
    ¬ ∀ (cfg : ZigbeeCfg) (tables : List XferUartCfg) (req : ZgbStdScanReq) (setDstAddr : UInt16 →
      Bool) (rssi : UInt8)
      (rsp : ZgbListRsp), eZigbeeSendStdLstRsp cfg tables req setDstAddr rssi true = some rsp →
      ZgbAnnounces rsp (zgbAddrs cfg tables) := by
  intro hall
  have hannounces :=
    hall ⟨1, 0, 1, 8, 7, List.replicate 8 0, rfl⟩
    (List.replicate 4 ⟨true, true, 64, fun j => UInt8.ofNat j⟩)
    ⟨7, List.replicate 8 0, 0, 30⟩ (fun _ => true) 80 _ rfl
  have hle := ((zgbListRsp_announces_iff _ _ _ _ _).mp hannounces).1
  simp [zgbAddrs, XferUartCfg.forwarded, List.replicate] at hle

end DasEdge.Zigbee
