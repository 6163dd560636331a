import OpenWrt.Mwan3.MarkUnique
import OpenWrt.Mwan3.Mwan3ct
import OpenWrt.Mwan3.TrackScore
import OpenWrt.Mwan3.IpCheck
import OpenWrt.Mwan3.Sticky
import OpenWrt.MtkBmt.NandCopy
import OpenWrt.MtkBmt.FlatRefine
import OpenWrt.MtkBmt.BbtRange
import OpenWrt.MtkBmt.Nmbm.Loops
import OpenWrt.MtkBmt.RemapFrame
import OpenWrt.RbLz77.CountCode
import OpenWrt.RbLz77.Meaning
import OpenWrt.Unetmsg.Request
import OpenWrt.Unetmsg.Auth
import OpenWrt.Nvram.RoundTrip
import OpenWrt.Nvram.Reads
import OpenWrt.MtkBmt.En75.FactoryBad
import OpenWrt.Mwan3.RtmonCustom
import OpenWrt.Mwan3.RtmonHotplug
import OpenWrt.Mwan3.RtmonRun
import OpenWrt.Mwan3.PolicyStatus
import OpenWrt.Mwan3.PolicySlots
import OpenWrt.Uline.ArgsRoundTrip
import OpenWrt.Uline.ArgsPositions
import OpenWrt.Uline.EditorSound
import OpenWrt.Uline.WindowSize
import OpenWrt.Uline.Redraw
import OpenWrt.MapCalc.Validation
import OpenWrt.Hostapd.MldKept
import OpenWrt.Hostapd.PendingCurrent
import OpenWrt.Hostapd.PendingStop
import OpenWrt.Hostapd.MacaddrSound
import OpenWrt.Hostapd.BssidUnique
import OpenWrt.Hostapd.WifiSchema
import OpenWrt.Netifd.Links
import OpenWrt.Netifd.SetupExit
import OpenWrt.WpaSupplicant.Exclusion
import OpenWrt.Mtd.WriteContract
import OpenWrt.Mtd.Jffs2Placed
import OpenWrt.Mtd.Jffs2Found
import OpenWrt.Mtd.FisRemap
import OpenWrt.Mtd.FixTrxSound
import OpenWrt.Bcm4908img.Agreement
import OpenWrt.Rtl8366.Pvid
import OpenWrt.Timecontrol.DurationKept
import OpenWrt.Rtl83xx.FdbMap
import OpenWrt.MtkBmt.V2BufferBounds
import OpenWrt.MtkBmt.En75.Shift
import OpenWrt.Rtl83xx.RouteStore
import OpenWrt.Rtl83xx.Mirror
import OpenWrt.Rtl83xx.PieRules
import OpenWrt.Rtl83xx.PacketCounters
import OpenWrt.Rtl83xx.MstAccounting
import OpenWrt.RouterBoot.Rle
import OpenWrt.RouterBoot.Partitions
import OpenWrt.RouterBoot.SoftConfig
import OpenWrt.Ipcalc.Range
import OpenWrt.Fritz.TffsNorBounds
import OpenWrt.Mtdsplit.ImageSplit
import OpenWrt.Cli.Navigation
import OpenWrt.Cli.ObjectEditor
import OpenWrt.Kconfig.Config
