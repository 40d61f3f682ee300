import OmniSocket.Common
import OmniSocket.Lib.Machine
import OmniSocket.Tcp
import OmniSocket.App.Client
import OmniSocket.App.Server
import OmniSocket.FileTransfer
import OmniSocket.TcpStream
import OmniSocket.TcpTransfer
import OmniSocket.Ikcp.Segment
import OmniSocket.Ikcp.Control
import OmniSocket.Ikcp.Send
import OmniSocket.Ikcp.Input
import OmniSocket.Datagram
import OmniSocket.Ikcp.Flush
import OmniSocket.Kcp
import OmniSocket.Udp
import OmniSocket.Network
import OmniSocket.Ikcp.Frame
import OmniSocket.WholeMessage
import OmniSocket.KcpPeer
import OmniSocket.Ikcp.Message
import OmniSocket.KcpEndpoint
import OmniSocket.SendFraming
import OmniSocket.Ikcp.Pack
import OmniSocket.Ikcp.Window
import OmniSocket.KcpSender
import OmniSocket.Ikcp.Arrival
import OmniSocket.KcpStream
import OmniSocket.KcpTransfer
import OmniSocket.App.Relay
import OmniSocket.RelayRouting
import OmniSocket.RelayIdle
import OmniSocket.TcpFrames
import OmniSocket.RelayFrames
import OmniSocket.KcpBacklog
import OmniSocket.RelayBacklog
import OmniSocket.Lib.Sliding
import OmniSocket.KcpFlow
import OmniSocket.KcpSessions
import OmniSocket.Logger
import OmniSocket.ProcessStats
import OmniSocket.TcpGrammar
import OmniSocket.TcpReader
import OmniSocket.TcpRoundTrip
import OmniSocket.AppCodec
import OmniSocket.ServerLoop
import OmniSocket.ClientLoop
import OmniSocket.TcpClosed
import OmniSocket.Lib.Custody
import OmniSocket.RelayContexts
import OmniSocket.KcpDatagrams
import OmniSocket.Ikcp.Retransmit
import OmniSocket.KcpRetrans
import OmniSocket.KcpDead
import OmniSocket.JsonEscape
import OmniSocket.Lib.Json
import OmniSocket.LogRecord
import OmniSocket.Averages
import OmniSocket.Lib.Progress
import OmniSocket.TcpLoops
import OmniSocket.App.ClientRecv
import OmniSocket.Lib.Ending
import OmniSocket.RecvLoops
import OmniSocket.LoopEnds
import OmniSocket.Lib.Stdio
import OmniSocket.TcpFlow
import OmniSocket.App.Console
import OmniSocket.OperatorCommands
import OmniSocket.CommandTransfer
import OmniSocket.Lib.Scan
import OmniSocket.App.RelayControl
import OmniSocket.RelayLanguage
import OmniSocket.RelayAddress
import OmniSocket.Ikcp.Settled
import OmniSocket.KcpBounds
import OmniSocket.Lib.Reach
import OmniSocket.KcpHonest
import OmniSocket.KcpTrust
import OmniSocket.Ikcp.Due
import OmniSocket.Ikcp.Probe
import OmniSocket.KcpProgress
import OmniSocket.Lib.Ring
import OmniSocket.Lib.RingHeap
import OmniSocket.Lib.Device
import OmniSocket.Ikcp.Heap
import OmniSocket.Ikcp.Memory
import OmniSocket.Ikcp.MemoryInput
import OmniSocket.Ikcp.MemoryRuns
import OmniSocket.Lib.Follow
import OmniSocket.Lib.Lifetime
import OmniSocket.App.Program
import OmniSocket.App.ServerMain
import OmniSocket.App.ClientMain
import OmniSocket.ProgramLifetimes
import OmniSocket.ServerExit
import OmniSocket.TcpPrograms
import OmniSocket.RelayDownstream
import OmniSocket.RelayTransfer
import OmniSocket.RelayDelivery
import OmniSocket.App.Echo
import OmniSocket.EchoTcp
import OmniSocket.EchoKcp
import OmniSocket.EchoUdp
import OmniSocket.KcpNet
