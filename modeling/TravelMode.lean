import TravelMode.Lib.Runs
import TravelMode.Lib.KeyedMap
import TravelMode.Lib.UnixPath
import TravelMode.Lib.Utf8Paths
import TravelMode.Lib.UnixFs
import TravelMode.Lib.Frames
import TravelMode.Lib.Broadcast
import TravelMode.Lib.WriteLog
import TravelMode.Lib.IpPacket
import TravelMode.Lib.Grouping
import TravelMode.Lib.Sharded
import TravelMode.Lib.Meter
import TravelMode.Lib.Loops
import TravelMode.Lib.KeyedView
import TravelMode.Lib.Nftables
import TravelMode.Lib.NftText
import TravelMode.Core.Types
import TravelMode.Daemon.Rules
import TravelMode.Daemon.RuleFile
import TravelMode.Gui.State
import TravelMode.Gui.Eviction
import TravelMode.Gui.Client
import TravelMode.Gui.Snapshot
import TravelMode.Gui.Absorb
import TravelMode.Gui.Operations
import TravelMode.Gui.EvictionOrder
import TravelMode.Gui.Cap
import TravelMode.Gui.Speeds
import TravelMode.Gui.BlockFlags
import TravelMode.Gui.Sections
import TravelMode.Gui.AppsPage
import TravelMode.Gui.ConnsPage
import TravelMode.Gui.Fmt
import TravelMode.Gui.App
import TravelMode.Gui.Ready
import TravelMode.Lib.TextScan
import TravelMode.Daemon.Attrib
import TravelMode.Daemon.Procs
import TravelMode.Core.IpText
import TravelMode.Core.IpReading
import TravelMode.Core.Ipc
import TravelMode.Daemon.Firewall
import TravelMode.Daemon.State
import TravelMode.Daemon.Conntrack
import TravelMode.Daemon.ConntrackText
import TravelMode.Daemon.FlowKill
import TravelMode.Daemon.Main
import TravelMode.Daemon.Ipc
import TravelMode.Daemon.Tasks
import TravelMode.Daemon.FlowNames
import TravelMode.Daemon.NftCalls
import TravelMode.Daemon.NetInfo
import TravelMode.Cli.Main
import TravelMode.System.RuleMirror
import TravelMode.System.Pause
import TravelMode.System.Policy
import TravelMode.System.Retroactive
import TravelMode.System.Attribution
import TravelMode.System.SocketTables
import TravelMode.System.DisplayCap
import TravelMode.System.AppCounts
import TravelMode.System.Aggregation
import TravelMode.System.EventStream
import TravelMode.System.LastWord
import TravelMode.System.Lagging
import TravelMode.System.CommitOrder
import TravelMode.System.CrashSafety
import TravelMode.System.FlowReplay
import TravelMode.System.Framing
import TravelMode.System.Overlap
import TravelMode.System.Responses
import TravelMode.System.SessionStart
import TravelMode.System.Lifetime
import TravelMode.System.Headers
import TravelMode.System.ConntrackLines
import TravelMode.System.LineFormat
import TravelMode.System.TopApps
import TravelMode.System.ProcessCache
import TravelMode.System.Enforcement
import TravelMode.System.InodeCache
import TravelMode.System.BlockLog
import TravelMode.System.QueueRule
import TravelMode.System.ProcessEvents
import TravelMode.System.ClientLoop
import TravelMode.System.Resolution
import TravelMode.System.InterfaceAddrs
import TravelMode.System.RouteChoice
import TravelMode.System.Nameservers
import TravelMode.System.FlowKeys
import TravelMode.System.UserLookup
import TravelMode.System.LightSwitch
import TravelMode.System.KillScope
import TravelMode.System.FlowRows
import TravelMode.System.OwnTable
import TravelMode.System.QueueWorker
import TravelMode.Cli.Table
