import DasEdge.Sdccp.BfifoRefinement
import DasEdge.VarManage.ExtDataListInvariant
import DasEdge.VarManage.PollCoverage
import DasEdge.VarManage.MasterDelivery
import DasEdge.VarManage.SlaveWrite
import DasEdge.Expression.EzTermination
import DasEdge.Expression.EzUnreached
import DasEdge.VarManage.RefreshLimits
import DasEdge.Sdccp.Hjt212RoundTrip
import DasEdge.Das.BlockMsgQueue
import DasEdge.Das.RtTimer
import DasEdge.VarManage.StorageAvg
import DasEdge.VarManage.PollErrors
import DasEdge.VarManage.SlaveForward
import DasEdge.VarManage.RegBounds
import DasEdge.VarManage.MeterIsolation
import DasEdge.VarManage.MeterValues
import DasEdge.Sdccp.Hjt212Scan
import DasEdge.Sdccp.Hjt212History
import DasEdge.Sdccp.Hjt212Drain
import DasEdge.Sdccp.BjdcResync
import DasEdge.Sdccp.BjdcBounds
import DasEdge.Sdccp.BjdcSessionSafety
import DasEdge.Rule.RuleStoreRefinement
import DasEdge.Lora.LoraStd
import DasEdge.Lora.LoraResync
import DasEdge.Lora.LoraSend
import DasEdge.Wireless.WirelessNodes
import DasEdge.Zigbee.ZgbStdBounds
import DasEdge.Zigbee.ZgbScan
import DasEdge.Sdccp.Dm101RoundTrip
import DasEdge.Sdccp.Dm101Bounds
import DasEdge.Sdccp.Dm101LinkDelivery
import DasEdge.Board.UpdateSafety
import DasEdge.Board.LogPages
import DasEdge.Board.NetStates
import DasEdge.Board.BoardCfg
import DasEdge.Board.XferDstSerial
import DasEdge.Board.XferNet
import DasEdge.Http.HclientConnect
import DasEdge.Sdccp.MqttReport
import DasEdge.Sdccp.MqttGroups
import DasEdge.Http.HclientRsp
import DasEdge.Http.HclientDownload
import DasEdge.Gprs.GprsHelper
import DasEdge.Gprs.GprsLine
import DasEdge.Gprs.GprsFraming
import DasEdge.VarManage.RegsFlag
import DasEdge.Board.StorageLimit
import DasEdge.VarManage.AddGroup
import DasEdge.Library.Spans
import DasEdge.VarManage.AddrAllocation
import DasEdge.Test.ServerCom
import DasEdge.Test.PackageBounds
import DasEdge.Test.HeadMatch
import DasEdge.Test.PackageRoundTrip
import DasEdge.Board.CfgRecover
import DasEdge.Board.CfgBackup
import DasEdge.VarManage.SyncPlan
import DasEdge.VarManage.SyncPlanLinks
import DasEdge.Library.FirstFit
import DasEdge.VarManage.PollGrouping
import DasEdge.VarManage.PollEnumeration
import DasEdge.Library.LinkFields
import DasEdge.VarManage.SortLinks
import DasEdge.VarManage.SortExact
import DasEdge.Library.CJsonItem
import DasEdge.VarManage.ExtDataInfo
import DasEdge.VarManage.VarStores
import DasEdge.VarManage.StoreAgreement
import DasEdge.Library.BcdText
import DasEdge.Sdccp.Dlt645
import DasEdge.Sdccp.Dlt645Accept
import DasEdge.Sdccp.Dlt645Values
import DasEdge.Sdccp.BfifoLock
import DasEdge.Sdccp.BfifoFds
import DasEdge.Board.CfgRecoverBusy
import DasEdge.Board.CfgLineReader
import DasEdge.VarManage.ExtDataRoundTrip
import DasEdge.VarManage.GroupCreation
import DasEdge.VarManage.AddDevWhole
import DasEdge.VarManage.AddDevEffect
import DasEdge.VarManage.UniqueNames
import DasEdge.Sdccp.Dust
import DasEdge.Sdccp.Mbus603
import DasEdge.Board.XferAscii
import DasEdge.Board.XferUartTable
import DasEdge.Sdccp.DhValue
import DasEdge.Lora.LoraBody
import DasEdge.Board.SerialBurst
import DasEdge.Wireless.ReceiveBuffers
import DasEdge.Wireless.NodeLiveness
import DasEdge.Sdccp.Smf
import DasEdge.Das.ThreadDog
import DasEdge.Expression.EzCustomCalls
import DasEdge.Library.Interning
import DasEdge.Expression.EzRegisters
import DasEdge.Library.BoundedReads
import DasEdge.Expression.EzCursor
import DasEdge.Http.HclientRspMemory
import DasEdge.Expression.EzOperands
import DasEdge.Expression.EzErrors
import DasEdge.Expression.EzCallByValue
import DasEdge.Library.Crc
import DasEdge.Board.Checksums
import DasEdge.Sdccp.BjdcRoundTrip
import DasEdge.Das.TrimAll
import DasEdge.VarManage.Collectors
import DasEdge.Expression.EzNumbers
import DasEdge.Expression.EzExtents
import DasEdge.VarManage.RuleCalls
import DasEdge.Sdccp.Hjt212Extraction
import DasEdge.Sdccp.Hjt212ReportSize
import DasEdge.Sdccp.Aes
import DasEdge.Cjson.Parse
import DasEdge.Cjson.RoundTrip
import DasEdge.Cjson.Memory
import DasEdge.Zigbee.ZgbNodes
import DasEdge.Board.CfgBackupJson
import DasEdge.Library.Feistel
import DasEdge.Reg.RtuDes
import DasEdge.Library.BlockDigest
import DasEdge.Sdccp.Md5
import DasEdge.Reg.RtuMd5
import DasEdge.Reg.RtuSha
import DasEdge.Reg.RtuReg
import DasEdge.Reg.Registration
