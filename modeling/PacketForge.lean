import PacketForge.Arp.Links
import PacketForge.Host.Challenge
import PacketForge.Host.Demux
import PacketForge.Host.Orphans
import PacketForge.Host.Refs
import PacketForge.Host.Transfer
import PacketForge.Ipv4.RangesArray
import PacketForge.Ipv4.ReassKeys
import PacketForge.Route.FibMinimal
import PacketForge.Route.FibRefine
import PacketForge.Route.FibWalk
import PacketForge.Stack.Asserts
import PacketForge.Stack.Broadcast
import PacketForge.Stack.Connect
import PacketForge.Stack.Counters
import PacketForge.Stack.ErrorRules
import PacketForge.Stack.Forward
import PacketForge.Stack.Fragments
import PacketForge.Stack.RoundTrip
import PacketForge.Stack.Segments
import PacketForge.Tcp.Congestion
import PacketForge.Tcp.EndToEnd
import PacketForge.Tcp.Estimator
import PacketForge.Tcp.HalfOpen
import PacketForge.Tcp.Karn
import PacketForge.Tcp.Nagle
import PacketForge.Tcp.OooQueue
import PacketForge.Tcp.Options
import PacketForge.Tcp.PureAck
import PacketForge.Tcp.Retries
import PacketForge.Tcp.Timer
import PacketForge.Tcp.Trimming
import PacketForge.Tcp.WindowRun
import PacketForge.Udp.Ephemeral
