import DasEdge.Board.DasUtil
import Mathlib.Data.Int.Notation
import Mathlib.Data.UInt
import Mathlib.Tactic.SplitIfs

/-!
# Forwarding between network channels

`xfer_helper.c` and `__xfer_rcv_frame` in `xfer_net.c`. The Ethernet channels come first, the GPRS
channels behind them; the configurations of all channels are one table. A configuration of another
mode than transfer lies in the same memory, so every channel has a transfer configuration to read.
Whom the radios reach is given.
-/

namespace DasEdge.Board

/-- `BOARD_ENET_TCPIP_NUM` -/
def boardEnetTcpipNum : ℕ := 12

/-- `BOARD_GPRS_TCPIP_NUM` -/
def boardGprsTcpipNum : ℕ := 8

/-- `BOARD_TCPIP_MAX` -/
def boardTcpipMax : ℕ := boardEnetTcpipNum + boardGprsTcpipNum

/-- `PROTO_DEV_RS_MAX` -/
def protoDevRsMax : ℕ := 1

/-- `PROTO_DEV_NET` -/
def protoDevNet : ℕ := 2

/-- `PROTO_DEV_ZIGBEE` -/
def protoDevZigbee : ℕ := 3

/-- `PROTO_DEV_GPRS` -/
def protoDevGprs : ℕ := 4

/-- `PROTO_DEV_LORA` -/
def protoDevLora : ℕ := 5

/-- `TCP_IP_M_XFER` -/
def tcpIpMXfer : ℕ := 1

/-- `XFER_M_GW` -/
def xferMGw : ℕ := 0

/-- `XFER_M_TRT` -/
def xferMTrt : ℕ := 1

/-- `XFER_PROTO_MODBUS_RTU` -/
def xferProtoModbusRtu : ℕ := 1

/-- `XFER_PROTO_MODBUS_ASCII` -/
def xferProtoModbusAscii : ℕ := 2

/-- `xfer_gw_cfg_t`, with the index of `tcpip_cfg` for its destination. -/
structure XferGwCfg where
  protoType : ℕ
  dstType : ℕ
  idx : UInt8

/-- `xfer_trt_cfg_t`, with the index of `tcpip_cfg` for its destination. -/
structure XferTrtCfg where
  dstType : ℕ
  idx : UInt8

/-- `xfer_cfg_t` -/
structure XferCfg where
  mode : ℕ
  gw : XferGwCfg
  trt : XferTrtCfg

/-- The fields of `tcpip_cfg_t` that forwarding reads. -/
structure TcpipCfg where
  enable : Bool
  mode : ℕ
  xfer : XferCfg

/-- The test of `xfer_tcpip_mode_check` on a destination. -/
def NetKind (dstType : ℕ) : Prop := dstType = protoDevNet ∨ dstType = protoDevGprs

instance decidableNetKind (dstType : ℕ) : Decidable (NetKind dstType) :=
  inferInstanceAs (Decidable (_ ∨ _))

/-- `xfer_tcpip_mode_check`. It is never called below 0. -/
def xferTcpipModeCheck (cfgs : ℕ → TcpipCfg) (n : ℤ) : ℤ :=
  let cfg := cfgs n.toNat
  if n < boardTcpipMax ∧ cfg.enable then
    if cfg.mode = tcpIpMXfer then
      if cfg.xfer.mode = xferMGw then
        if NetKind cfg.xfer.gw.dstType then cfg.xfer.gw.idx.toNat else -1
      else if cfg.xfer.mode = xferMTrt then
        if NetKind cfg.xfer.trt.dstType then cfg.xfer.trt.idx.toNat else -1
      else -1
    else -1
  else -1

/-- `xfer_enet_to_gprs_check` -/
def xferEnetToGprsCheck (cfgs : ℕ → TcpipCfg) (n : ℤ) : Bool :=
  let gprsIdx := xferTcpipModeCheck cfgs n
  if 0 ≤ gprsIdx then decide (n = xferTcpipModeCheck cfgs (boardEnetTcpipNum + gprsIdx)) else false

/-- `xfer_gprs_to_enet_check` -/
def xferGprsToEnetCheck (cfgs : ℕ → TcpipCfg) (n : ℤ) : Bool :=
  let enetIdx := xferTcpipModeCheck cfgs (n + boardEnetTcpipNum)
  if 0 ≤ enetIdx then decide (n = xferTcpipModeCheck cfgs enetIdx) else false

/-- `ASC_TO_INT` -/
def ascToInt (b : UInt8) : UInt8 :=
  if 0x30 ≤ b ∧ b ≤ 0x39 then b - 0x30 else if 0x41 ≤ b ∧ b ≤ 0x46 then b - 0x41 + 0x0A else 0

/-- Two digits from a place on. -/
def ascByte (frame : List UInt8) (i : ℕ) : UInt8 :=
  ascToInt (frame.getD i 0) <<< 4 ||| ascToInt (frame.getD (i + 1) 0)

/-- `ucMBAsciiLRC`, with the length as 16 bits. The places are 1, 3 and so on up to the length less
3. -/
def ucMBAsciiLRC (frame : List UInt8) (len : ℕ) : UInt8 :=
  -((List.range ((len % 2 ^ 16 - 2) / 2)).map fun k => ascByte frame (2 * k + 1)).sum

/-- `ucMBAsciiAddr` -/
def ucMBAsciiAddr (frame : List UInt8) : UInt8 := ascByte frame 1

/-- What `__xfer_rcv_frame` finds of the radios: the slaves that are online and take an address, and
whether this is their master. -/
structure XferRadio where
  zgbSlave : UInt8 → Bool
  loraSlave : UInt8 → Bool
  zgbCoordinator : Bool
  loraCentral : Bool

/-- Where a frame goes. -/
inductive XferDst
  | zigbee
  | lora
  | serial (dstType : ℕ)
  | net (n : ℕ)
  deriving DecidableEq

/-- The slave address of a frame that a gateway sends on. -/
def xferGwAddr (gw : XferGwCfg) (frame : List UInt8) : Option UInt8 :=
  if gw.protoType = xferProtoModbusRtu then
    if 4 ≤ frame.length ∧ dasCrc16 frame = 0 then some (frame.getD 0 0) else none
  else if gw.protoType = xferProtoModbusAscii then
    if 7 ≤ frame.length ∧ ucMBAsciiLRC frame frame.length = 0 then some (ucMBAsciiAddr frame) else none
  else none

/-- A Modbus slave address: `MB_ADDRESS_MIN` to `MB_ADDRESS_MAX`. -/
def MbAddress (addr : UInt8) : Prop := 1 ≤ addr ∧ addr ≤ 247

instance decidableMbAddress (addr : UInt8) : Decidable (MbAddress addr) :=
  inferInstanceAs (Decidable (_ ∧ _))

/-- The part of `__xfer_rcv_frame` that both modes have: to a network channel, once the check passes. -/
def xferToNet (cfgs : ℕ → TcpipCfg) (n : ℕ) (dstType : ℕ) (idx : UInt8) : Option XferDst :=
  if dstType = protoDevNet then
    if xferGprsToEnetCheck cfgs ((n : ℤ) - boardEnetTcpipNum) then some (.net idx.toNat) else none
  else if dstType = protoDevGprs then
    if xferEnetToGprsCheck cfgs n then some (.net (idx.toNat + boardEnetTcpipNum)) else none
  else none

/-- `__xfer_rcv_frame`: where the frame goes. -/
def xferRcvFrame (radio : XferRadio) (cfgs : ℕ → TcpipCfg) (n : ℕ) (frame : List UInt8) :
    Option XferDst :=
  let xfer := (cfgs n).xfer
  if xfer.mode = xferMGw then
    match xferGwAddr xfer.gw frame with
    | none => none
    | some slaveAddr =>
      if xfer.gw.dstType = protoDevZigbee then
        if MbAddress slaveAddr ∧ radio.zgbSlave slaveAddr then some .zigbee else none
      else if xfer.gw.dstType = protoDevLora then
        if MbAddress slaveAddr ∧ radio.loraSlave slaveAddr then some .lora else none
      else if xfer.gw.dstType ≤ protoDevRsMax then some (.serial xfer.gw.dstType)
      else xferToNet cfgs n xfer.gw.dstType xfer.gw.idx
  else if xfer.mode = xferMTrt then
    if xfer.trt.dstType ≤ protoDevRsMax then some (.serial xfer.trt.dstType)
    else if xfer.trt.dstType = protoDevZigbee ∧ radio.zgbCoordinator then some .zigbee
    else if xfer.trt.dstType = protoDevLora ∧ radio.loraCentral then some .lora
    else xferToNet cfgs n xfer.trt.dstType xfer.trt.idx
  else none

/-- The destination of a transfer configuration. -/
def XferCfg.dst (xfer : XferCfg) : Option (ℕ × UInt8) :=
  if xfer.mode = xferMGw then some (xfer.gw.dstType, xfer.gw.idx)
  else if xfer.mode = xferMTrt then some (xfer.trt.dstType, xfer.trt.idx)
  else none

/-- A channel is enabled in transfer mode, and its destination is of a kind and has an index there. -/
structure Targets (cfgs : ℕ → TcpipCfg) (n dstType idx : ℕ) : Prop where
  channel : n < boardTcpipMax
  enabled : (cfgs n).enable = true
  transfers : (cfgs n).mode = tcpIpMXfer
  names : (cfgs n).xfer.dst.map (fun dst => (dst.1, dst.2.toNat)) = some (dstType, idx)

/-- One of two channels is an Ethernet channel and the other a GPRS channel, and each names the
other as its destination. -/
def Paired (cfgs : ℕ → TcpipCfg) (n m : ℕ) : Prop :=
  (n < boardEnetTcpipNum ∧ ∃ g, m = boardEnetTcpipNum + g ∧ Targets cfgs n protoDevGprs g ∧
    Targets cfgs m protoDevNet n) ∨
  (m < boardEnetTcpipNum ∧ ∃ g, n = boardEnetTcpipNum + g ∧ Targets cfgs n protoDevNet m ∧
    Targets cfgs m protoDevGprs g)

/-- A frame passes the test of a gateway, or there is none. -/
def XferAccepts (xfer : XferCfg) (frame : List UInt8) : Prop :=
  (xfer.mode = xferMGw ∧ (xferGwAddr xfer.gw frame).isSome = true) ∨ xfer.mode = xferMTrt

/-- The indices fit and the kinds do not. To an Ethernet channel: from the last Ethernet channel,
when the other one has no network destination; or when the other one is no Ethernet channel, or has
an Ethernet destination itself. To a GPRS channel: from a GPRS channel, or when the other one has a
GPRS destination itself. -/
def Mispaired (cfgs : ℕ → TcpipCfg) (n : ℕ) : Prop :=
  (∃ e, Targets cfgs n protoDevNet e ∧ xferTcpipModeCheck cfgs e = (n : ℤ) - boardEnetTcpipNum ∧
    (n < boardEnetTcpipNum ∨ boardEnetTcpipNum ≤ e ∨
    Targets cfgs e protoDevNet (n - boardEnetTcpipNum))) ∨
  (∃ g, Targets cfgs n protoDevGprs g ∧ xferTcpipModeCheck cfgs ((boardEnetTcpipNum + g : ℕ) : ℤ) = n ∧
    (boardEnetTcpipNum ≤ n ∨ Targets cfgs (boardEnetTcpipNum + g) protoDevGprs n))

/-- The check reads the destination, whatever the mode of the transfer. -/
theorem xferTcpipModeCheck_eq (cfgs : ℕ → TcpipCfg) (n : ℕ) :
    xferTcpipModeCheck cfgs n =
      if n < boardTcpipMax ∧ (cfgs n).enable = true ∧ (cfgs n).mode = tcpIpMXfer then
        match (cfgs n).xfer.dst with
        | some dst => if NetKind dst.1 then dst.2.toNat else -1
        | none => -1
      else -1 := by
  simp only [xferTcpipModeCheck, Int.toNat_natCast, Int.ofNat_lt, XferCfg.dst]
  by_cases hchannel : n < boardTcpipMax ∧ (cfgs n).enable = true
  · by_cases hmode : (cfgs n).mode = tcpIpMXfer
    · by_cases hgw : (cfgs n).xfer.mode = xferMGw
      · simp [hchannel, hmode, hgw]
      · by_cases htrt : (cfgs n).xfer.mode = xferMTrt
        · simp [hchannel, hmode, htrt, show xferMTrt ≠ xferMGw by decide]
        · simp [hgw, htrt]
    · simp [hmode]
  · rw [if_neg hchannel, if_neg fun h => hchannel ⟨h.1, h.2.1⟩]

/-- A channel has one destination. -/
theorem Targets.unique {cfgs : ℕ → TcpipCfg} {n t t' i i' : ℕ} (h : Targets cfgs n t i)
    (h' : Targets cfgs n t' i') :
    t = t' ∧ i = i' := by
  have hnames := h.names.symm.trans h'.names
  rw [Option.some_inj, Prod.mk.injEq] at hnames
  exact hnames

/-- The check gives the index of a network destination. -/
theorem Targets.modeCheck {cfgs : ℕ → TcpipCfg} {n t i : ℕ} (h : Targets cfgs n t i)
    (hkind : NetKind t) :
    xferTcpipModeCheck cfgs n = i := by
  obtain ⟨dst, hdst, hpair⟩ := Option.map_eq_some_iff.mp h.names
  rw [Prod.mk.injEq] at hpair
  rw [xferTcpipModeCheck_eq, if_pos ⟨h.channel, h.enabled, h.transfers⟩, hdst, ← hpair.2]
  exact if_pos (hpair.1 ▸ hkind)

/-- The check is the index of a network destination or -1. -/
theorem xferTcpipModeCheck_cases (cfgs : ℕ → TcpipCfg) (n : ℕ) :
    (∃ t i, NetKind t ∧ Targets cfgs n t i) ∨ xferTcpipModeCheck cfgs n = -1 := by
  rw [xferTcpipModeCheck_eq]
  by_cases hchannel : n < boardTcpipMax ∧ (cfgs n).enable = true ∧ (cfgs n).mode = tcpIpMXfer
  · rw [if_pos hchannel]
    cases hdst : (cfgs n).xfer.dst with
    | none => exact Or.inr rfl
    | some dst =>
      by_cases hkind : NetKind dst.1
      · exact Or.inl ⟨dst.1, dst.2.toNat, hkind, hchannel.1, hchannel.2.1,
          hchannel.2.2, by rw [hdst, Option.map_some]⟩
      · exact Or.inr (if_neg hkind)
  · exact Or.inr (if_neg hchannel)

/-- The check is an index when the channel has a network destination with that index. -/
theorem xferTcpipModeCheck_eq_natCast {cfgs : ℕ → TcpipCfg} {n i : ℕ} :
    xferTcpipModeCheck cfgs n = i ↔ Targets cfgs n protoDevNet i ∨ Targets cfgs n protoDevGprs i := by
  constructor
  · intro hcheck
    rcases xferTcpipModeCheck_cases cfgs n with ⟨t, j, hkind, htargets⟩ | hnone
    · have hj : j = i := Int.ofNat_inj.mp ((htargets.modeCheck hkind).symm.trans hcheck)
      subst hj
      rcases hkind with rfl | rfl
      · exact Or.inl htargets
      · exact Or.inr htargets
    · omega
  · rintro (htargets | htargets)
    · exact htargets.modeCheck (Or.inl rfl)
    · exact htargets.modeCheck (Or.inr rfl)

/-- A check that an index is not negative and passes a test finds the channel with that index. -/
theorem ite_decide_iff_natCast {index : ℤ} {p : ℤ → Prop} [DecidablePred p] :
    (if 0 ≤ index then decide (p index) else false) = true ↔ ∃ found : ℕ, index = found ∧ p found := by
  constructor
  · intro hcheck
    split at hcheck
    · rename_i hnonneg
      have hnat := Int.toNat_of_nonneg hnonneg
      refine ⟨index.toNat, hnat.symm, ?_⟩
      rw [hnat]
      exact of_decide_eq_true hcheck
    · cases hcheck
  · rintro ⟨found, rfl, hp⟩
    rw [if_pos (Int.natCast_nonneg found)]
    exact decide_eq_true hp

/-- The check from a GPRS channel finds the Ethernet channel that the channel's index names and
compares the index there. -/
theorem xferGprsToEnetCheck_iff (cfgs : ℕ → TcpipCfg) (n : ℕ) :
    xferGprsToEnetCheck cfgs ((n : ℤ) - boardEnetTcpipNum) = true ↔
      ∃ e : ℕ, xferTcpipModeCheck cfgs n = e ∧
        xferTcpipModeCheck cfgs e = (n : ℤ) - boardEnetTcpipNum := by
  rw [xferGprsToEnetCheck, Int.sub_add_cancel]
  refine (ite_decide_iff_natCast (p := fun e => (n : ℤ) - boardEnetTcpipNum =
    xferTcpipModeCheck cfgs e)).trans ?_
  simp only [eq_comm (a := (n : ℤ) - boardEnetTcpipNum)]

/-- The check from an Ethernet channel finds the GPRS channel that the channel's index names and
compares the index there. -/
theorem xferEnetToGprsCheck_iff (cfgs : ℕ → TcpipCfg) (n : ℕ) :
    xferEnetToGprsCheck cfgs n = true ↔
      ∃ g : ℕ, xferTcpipModeCheck cfgs n = g ∧
        xferTcpipModeCheck cfgs ((boardEnetTcpipNum + g : ℕ) : ℤ) = n := by
  rw [xferEnetToGprsCheck]
  refine (ite_decide_iff_natCast
    (p := fun g => (n : ℤ) = xferTcpipModeCheck cfgs (boardEnetTcpipNum + g))).trans ?_
  simp only [eq_comm (a := (n : ℤ)), Int.natCast_add]

/-- Only a network destination leads to a network channel. -/
theorem xferToNet_eq_some {cfgs : ℕ → TcpipCfg} {n dstType m : ℕ} {idx : UInt8} :
    xferToNet cfgs n dstType idx = some (.net m) ↔
      (dstType = protoDevNet ∧ idx.toNat = m ∧
      xferGprsToEnetCheck cfgs ((n : ℤ) - boardEnetTcpipNum) = true) ∨
      (dstType = protoDevGprs ∧ idx.toNat + boardEnetTcpipNum = m ∧
      xferEnetToGprsCheck cfgs n = true) := by
  rw [xferToNet]
  by_cases hnet : dstType = protoDevNet
  · subst hnet
    cases hcheck : xferGprsToEnetCheck cfgs ((n : ℤ) - boardEnetTcpipNum) <;>
      simp [show protoDevNet ≠ protoDevGprs by decide]
  · by_cases hgprs : dstType = protoDevGprs
    · subst hgprs
      cases hcheck : xferEnetToGprsCheck cfgs n <;> simp [show protoDevGprs ≠ protoDevNet by decide]
    · simp [hnet, hgprs]

/-- No other destination leads to a network channel. -/
theorem xferToNet_of_not_netKind {cfgs : ℕ → TcpipCfg} {n dstType : ℕ} {idx : UInt8}
    (h : ¬ NetKind dstType) :
    xferToNet cfgs n dstType idx = none := by
  rw [xferToNet, if_neg fun hnet => h (Or.inl hnet), if_neg fun hgprs => h (Or.inr hgprs)]

/-- A network destination is none of the others. -/
theorem NetKind.not_other {dstType : ℕ} (h : NetKind dstType) :
    dstType ≠ protoDevZigbee ∧ dstType ≠ protoDevLora ∧ ¬ dstType ≤ protoDevRsMax := by
  rcases h with rfl | rfl <;> decide

/-- A frame goes to a network channel when it is accepted and the destination leads there. -/
theorem xferRcvFrame_eq_net {radio : XferRadio} {cfgs : ℕ → TcpipCfg} {n m : ℕ} {frame : List UInt8} :
    xferRcvFrame radio cfgs n frame = some (.net m) ↔
      XferAccepts (cfgs n).xfer frame ∧
        ∃ dst, (cfgs n).xfer.dst = some dst ∧ xferToNet cfgs n dst.1 dst.2 = some (.net m) := by
  have hne : xferMTrt ≠ xferMGw := by decide
  simp only [xferRcvFrame, XferAccepts, XferCfg.dst]
  by_cases hgw : (cfgs n).xfer.mode = xferMGw
  · cases haddr : xferGwAddr (cfgs n).xfer.gw frame with
    | none => simp [hgw, hne.symm]
    | some slaveAddr =>
      by_cases hkind : NetKind (cfgs n).xfer.gw.dstType
      · obtain ⟨hzigbee, hlora, hserial⟩ := hkind.not_other
        simp [hgw, hzigbee, hlora, hserial]
      · have hnone := @xferToNet_of_not_netKind cfgs n _ (cfgs n).xfer.gw.idx hkind
        simp only [hgw, hnone, if_true]
        constructor
        · intro hforward
          split_ifs at hforward <;> cases hforward
        · rintro ⟨-, dst, hdst, hforward⟩
          rw [Option.some_inj] at hdst
          rw [← hdst, hnone] at hforward
          cases hforward
  · by_cases htrt : (cfgs n).xfer.mode = xferMTrt
    · by_cases hkind : NetKind (cfgs n).xfer.trt.dstType
      · obtain ⟨hzigbee, hlora, hserial⟩ := hkind.not_other
        simp [htrt, hne, hzigbee, hlora, hserial]
      · have hnone := @xferToNet_of_not_netKind cfgs n _ (cfgs n).xfer.trt.idx hkind
        simp only [htrt, hne, hnone, if_true, if_false]
        constructor
        · intro hforward
          split_ifs at hforward <;> cases hforward
        · rintro ⟨-, dst, hdst, hforward⟩
          rw [Option.some_inj] at hdst
          rw [← hdst, hnone] at hforward
          cases hforward
    · simp [hgw, htrt]

/-- A frame goes to a network channel when it is accepted, the destination is that channel, and its
check finds the own index. -/
theorem xferRcvFrame_net_iff {radio : XferRadio} {cfgs : ℕ → TcpipCfg} {n m : ℕ} {frame : List UInt8} :
    xferRcvFrame radio cfgs n frame = some (.net m) ↔
      XferAccepts (cfgs n).xfer frame ∧
        ((Targets cfgs n protoDevNet m ∧ xferTcpipModeCheck cfgs m = (n : ℤ) - boardEnetTcpipNum) ∨
          ∃ g, boardEnetTcpipNum + g = m ∧ Targets cfgs n protoDevGprs g ∧
            xferTcpipModeCheck cfgs m = n) := by
  rw [xferRcvFrame_eq_net]
  refine and_congr_right fun _ => ?_
  constructor
  · rintro ⟨dst, hdst, hforward⟩
    have hnames : (cfgs n).xfer.dst.map (fun dst => (dst.1, dst.2.toNat)) =
        some (dst.1, dst.2.toNat) := by
      rw [hdst, Option.map_some]
    rcases xferToNet_eq_some.mp hforward with ⟨hkind, hidx, hcheck⟩ | ⟨hkind, hidx, hcheck⟩
    · obtain ⟨e, hindex, hback⟩ := (xferGprsToEnetCheck_iff cfgs n).mp hcheck
      rcases xferTcpipModeCheck_eq_natCast.mp hindex with htargets | htargets
      all_goals
        have hpair := htargets.names.symm.trans hnames
        rw [Option.some_inj, Prod.mk.injEq] at hpair
      · have he : e = m := hpair.2.trans hidx
        subst he
        exact Or.inl ⟨htargets, hback⟩
      · exact absurd (hpair.1.trans hkind) (by decide)
    · obtain ⟨g, hindex, hback⟩ := (xferEnetToGprsCheck_iff cfgs n).mp hcheck
      rcases xferTcpipModeCheck_eq_natCast.mp hindex with htargets | htargets
      all_goals
        have hpair := htargets.names.symm.trans hnames
        rw [Option.some_inj, Prod.mk.injEq] at hpair
      · exact absurd (hpair.1.trans hkind) (by decide)
      · have hm : boardEnetTcpipNum + g = m := by omega
        exact Or.inr ⟨g, hm, htargets, hm ▸ hback⟩
  · rintro (⟨htargets, hback⟩ | ⟨g, rfl, htargets, hback⟩)
    all_goals
      obtain ⟨dst, hdst, hpair⟩ := Option.map_eq_some_iff.mp htargets.names
      rw [Prod.mk.injEq] at hpair
      refine ⟨dst, hdst, xferToNet_eq_some.mpr ?_⟩
    · exact Or.inl ⟨hpair.1, hpair.2,
        (xferGprsToEnetCheck_iff cfgs n).mpr ⟨m, htargets.modeCheck (Or.inl rfl), hback⟩⟩
    · refine Or.inr ⟨hpair.1, by omega, (xferEnetToGprsCheck_iff cfgs n).mpr ⟨g, ?_, hback⟩⟩
      exact htargets.modeCheck (Or.inr rfl)

/-- Frames that a channel accepts go to another network channel only in pairs, exactly when the
channel is not mispaired. -/
theorem xfer_pairs_iff (radio : XferRadio) (cfgs : ℕ → TcpipCfg) (n : ℕ) (frame : List UInt8) :
    (∀ m, xferRcvFrame radio cfgs n frame = some (.net m) → Paired cfgs n m) ↔
      ¬ (XferAccepts (cfgs n).xfer frame ∧ Mispaired cfgs n) := by
  simp only [xferRcvFrame_net_iff]
  constructor
  · rintro hpairs ⟨haccepts, ⟨e, htargets, hback, hwrong⟩ | ⟨g, htargets, hback, hwrong⟩⟩
    · rcases hpairs e ⟨haccepts, Or.inl ⟨htargets, hback⟩⟩
        with ⟨-, g, -, hother, -⟩ | ⟨he, g, hn, -, hother⟩
      · exact absurd (htargets.unique hother).1 (by decide)
      · rcases hwrong with hlt | hge | hnet
        · omega
        · omega
        · exact absurd (hnet.unique hother).1 (by decide)
    · rcases hpairs (boardEnetTcpipNum + g) ⟨haccepts, Or.inr ⟨g, rfl, htargets, hback⟩⟩ with
        ⟨hn, -, -, -, hother⟩ | ⟨-, -, -, hother, -⟩
      · rcases hwrong with hge | hgprs
        · omega
        · exact absurd (hgprs.unique hother).1 (by decide)
      · exact absurd (htargets.unique hother).1 (by decide)
  · rintro hsound m ⟨haccepts, ⟨htargets, hback⟩ | ⟨g, rfl, htargets, hback⟩⟩
    · have hright : ¬ (n < boardEnetTcpipNum ∨ boardEnetTcpipNum ≤ m ∨
          Targets cfgs m protoDevNet (n - boardEnetTcpipNum)) := fun hwrong =>
        hsound ⟨haccepts, Or.inl ⟨m, htargets, hback, hwrong⟩⟩
      simp only [not_or, Nat.not_lt, Nat.not_le] at hright
      obtain ⟨hn, hm, hnet⟩ := hright
      have hindex : xferTcpipModeCheck cfgs m = ((n - boardEnetTcpipNum : ℕ) : ℤ) := by omega
      have hgprs := (xferTcpipModeCheck_eq_natCast.mp hindex).resolve_left hnet
      exact Or.inr ⟨hm, n - boardEnetTcpipNum, by omega, htargets, hgprs⟩
    · have hright : ¬ (boardEnetTcpipNum ≤ n ∨
        Targets cfgs (boardEnetTcpipNum + g) protoDevGprs n) := fun hwrong =>
        hsound ⟨haccepts, Or.inr ⟨g, htargets, hback, hwrong⟩⟩
      simp only [not_or, Nat.not_le] at hright
      have hnet := (xferTcpipModeCheck_eq_natCast.mp hback).resolve_right hright.2
      exact Or.inl ⟨hright.1, g, rfl, htargets, hnet⟩

/-- Transparent channel 11 sends its frames to Ethernet channel 0, which is not enabled. -/
theorem xfer_pairs_last_enet :
    ¬ ∀ m, xferRcvFrame { zgbSlave := fun _ => false, loraSlave := fun _ => false, zgbCoordinator := false, loraCentral := false }
        (fun n =>
          { enable := decide (n = 11)
            mode := tcpIpMXfer
            xfer :=
              { mode := xferMTrt
                gw := { protoType := 0, dstType := 0, idx := 0 }
                trt := { dstType := protoDevNet, idx := 0 } } })
        11 [1] = some (.net m) →
      Paired
        (fun n =>
          { enable := decide (n = 11)
            mode := tcpIpMXfer
            xfer :=
              { mode := xferMTrt
                gw := { protoType := 0, dstType := 0, idx := 0 }
                trt := { dstType := protoDevNet, idx := 0 } } })
        11 m := by
  intro h
  rcases h 0 (by decide) with ⟨-, g, hg, -⟩ | ⟨-, g, hg, -⟩
  · rw [boardEnetTcpipNum] at hg
    omega
  · rw [boardEnetTcpipNum] at hg
    omega

end DasEdge.Board
