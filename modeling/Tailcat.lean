import Tailcat.Browser.FourTuples
import Tailcat.Runtime.FourTuples
import Tailcat.Browser.Handles
import Tailcat.Browser.Changes
import Tailcat.Browser.Engine
import Tailcat.Runtime.Fidelity
import Tailcat.Runtime.Listeners
import Tailcat.Runtime.Attribution
import Tailcat.Runtime.Connections
import Tailcat.Runtime.Isolation
import Tailcat.Runtime.Flows
import Tailcat.Runtime.Trace
import Tailcat.Runtime.Registration
import Tailcat.Runtime.Bounds
import Tailcat.Runtime.StepChanges
import Tailcat.Runtime.Wiring
import Tailcat.Lib.Vec
import Tailcat.Runtime.Changes
import Tailcat.Runtime.Step
import Tailcat.Runtime.Links
import Tailcat.Runtime.Datagram
import Tailcat.Runtime.Discovery
import Tailcat.Runtime.Actor
import Tailcat.Runtime.Packet
import Tailcat.Runtime.Pipe
import Tailcat.Lib.Transition
import Tailcat.Lib.Slots
import Tailcat.Lib.Channel
import Tailcat.Lib.Table
import Tailcat.Cli.Serving
import Tailcat.Net.Addr
import Tailcat.Derp.WebSocket
import Tailcat.Protocol.Publish
import Tailcat.Sftp.ReadOnly
import Tailcat.Sftp.DropBox
import Tailcat.Sftp.NonInterference
import Tailcat.Sftp.Probe
import Tailcat.Cli.ProxyCommand
import Tailcat.Cli.Socks
import Tailcat.Services.HostKey
import Tailcat.Protocol.DiskCache
import Tailcat.Protocol.CachePairs
import Tailcat.Protocol.MapCache
import Tailcat.Protocol.Rendezvous
import Tailcat.Services.Ssh
import Tailcat.Services.Perf
import Tailcat.Runtime.Admission
import Tailcat.Lib.Tlv
import Tailcat.Runtime.Stun
import Tailcat.Runtime.CallMeMaybe
import Tailcat.Protocol.CacheNames
import Tailcat.Services.PerfTotals
import Tailcat.Cli.SpecOrder
import Tailcat.Cli.KeyFile
import Tailcat.Sftp.Listings
import Tailcat.Cli.SocksUdp
import Tailcat.Runtime.Answers
import Tailcat.Runtime.AnsweredDials
import Tailcat.Protocol.RawAddress
import Tailcat.Lib.InternetChecksum
import Tailcat.Runtime.Udp
import Tailcat.Runtime.Dials
import Tailcat.Runtime.Echo
import Tailcat.Runtime.Forward
import Tailcat.Cli.CommandLine
import Tailcat.Runtime.Reflection
import Tailcat.Runtime.PortClaims
import Tailcat.Runtime.Precedence
import Tailcat.Lib.Lexical
import Tailcat.Sftp.Clean
import Tailcat.Sftp.Sound
import Tailcat.Sftp.SetStat
import Tailcat.Sftp.Links
import Tailcat.Lib.Loop
import Tailcat.Services.PerfSend
import Tailcat.Services.PerfReceive
import Tailcat.Lib.Lines
import Tailcat.Services.ControlLine
import Tailcat.Lib.LittleEndian
import Tailcat.Lib.ReplayWindow
import Tailcat.Noise.Agreement
import Tailcat.Noise.Exchange
import Tailcat.Noise.RateLimiter
import Tailcat.Noise.Tunn
import Tailcat.Noise.TunnSteps
import Tailcat.Noise.TunnRuns
import Tailcat.Noise.FirstPacket
import Tailcat.Noise.Replays
