import CpswDriver.Cpdma.HandedBack
import CpswDriver.Cpdma.Restart
import CpswDriver.Cpdma.Share
import CpswDriver.Ale.Flush
import CpswDriver.Ale.VlanMap
import CpswDriver.Ale.NuMasks
import CpswDriver.Ale.P0Untag
import CpswDriver.Ale.Controls
import CpswDriver.Cpsw.Xmit
import CpswDriver.Cpsw.OpenStop
import CpswDriver.Cpsw.Filters
import CpswDriver.Cpsw.Policer
import CpswDriver.Cpsw.Mqprio
import CpswDriver.Cpsw.CbsRejected
import CpswDriver.Cpdma.Shaper
import CpswDriver.Cpdma.Phases
import CpswDriver.Cpdma.Destroy
import CpswDriver.Cpsw.Maxrate
import CpswDriver.Cpsw.MacAddr
import CpswDriver.Cpsw.SwitchMode
import CpswDriver.Cpsw.RxMode
import CpswDriver.Cpsw.TxWeights
import CpswDriver.Cpsw.Poll
import CpswDriver.Cpdma.RateOrder
import CpswDriver.Cpsw.AddVid
import CpswDriver.Cpsw.RxCustody
import CpswDriver.Cpsw.VlanEncap
import CpswDriver.Snull.Rewrite
import CpswDriver.Cpdma.SearchEnds
import CpswDriver.Cpsw.FdbOrder
import CpswDriver.Cpsw.OffloadMark
import CpswDriver.Cpsw.Settling
import CpswDriver.Cpsw.Rings
import CpswDriver.Cpsw.TxCustody
import CpswDriver.Cpsw.ProbeRemove
import CpswDriver.Cpsw.ChannelSet
import CpswDriver.Cpsw.Driver
