import NetworkUtility.Base.ByteOrder
import NetworkUtility.Enet.Channel
import NetworkUtility.Enet.Incoming
import NetworkUtility.Enet.Layout
import NetworkUtility.Enet.Outgoing
import NetworkUtility.Enet.Peer
import NetworkUtility.Enet.Progress
import NetworkUtility.Enet.Reassembly
import NetworkUtility.Enet.Receiving
import NetworkUtility.Enet.Reliable
import NetworkUtility.Enet.Service
import NetworkUtility.Enet.Windows
import NetworkUtility.EnetClient.Model
import NetworkUtility.EnetClient.Notices
import NetworkUtility.EnetClient.Packets
import NetworkUtility.EnetClient.Receipt
import NetworkUtility.EnetClient.Slot
import NetworkUtility.EnetClient.Steps
import NetworkUtility.Etcp.LengthField
import NetworkUtility.Etcp.Link
import NetworkUtility.Etcp.Message
import NetworkUtility.Etcp.Parser
import NetworkUtility.Etcp.Receiver
import NetworkUtility.Etcp.Sender
import NetworkUtility.EtcpClient.Acceptance
import NetworkUtility.EtcpClient.Attempts
import NetworkUtility.EtcpClient.Boundary
import NetworkUtility.EtcpClient.Chain
import NetworkUtility.EtcpClient.Closed
import NetworkUtility.EtcpClient.Failures
import NetworkUtility.EtcpClient.Handshake
import NetworkUtility.EtcpClient.Init
import NetworkUtility.EtcpClient.Model
import NetworkUtility.EtcpClient.Queue
import NetworkUtility.EtcpClient.ReadSide
import NetworkUtility.EtcpClient.Reading
import NetworkUtility.EtcpClient.Replace
import NetworkUtility.EtcpClient.Start
import NetworkUtility.EtcpClient.Steps
import NetworkUtility.EtcpClient.Streams
import NetworkUtility.EtcpClient.Verdicts
import NetworkUtility.EtcpClient.WriteQueue
import NetworkUtility.EtcpClient.WriteSide
import NetworkUtility.EtcpClient.Writing
import NetworkUtility.EtcpServer.Accepts
import NetworkUtility.EtcpServer.Chain
import NetworkUtility.EtcpServer.Closed
import NetworkUtility.EtcpServer.Drain
import NetworkUtility.EtcpServer.Failures
import NetworkUtility.EtcpServer.Registry
import NetworkUtility.EtcpServer.Server
import NetworkUtility.EtcpServer.Session
import NetworkUtility.EtcpServer.Steps
import NetworkUtility.EtcpServer.Trace
import NetworkUtility.HttpClient.Parse
import NetworkUtility.HttpClient.Transfer
import NetworkUtility.Lib.AcceptLoop
import NetworkUtility.Lib.Bits
import NetworkUtility.Lib.Blocks
import NetworkUtility.Lib.Framing
import NetworkUtility.Lib.Index
import NetworkUtility.Lib.InetAddress
import NetworkUtility.Lib.Machine
import NetworkUtility.Lib.Monitor
import NetworkUtility.Lib.Monitor.Queue
import NetworkUtility.Lib.Monitor.Release
import NetworkUtility.Lib.Occurrences
import NetworkUtility.Lib.Relay
import NetworkUtility.Lib.Scan
import NetworkUtility.Lib.ScanLine
import NetworkUtility.Lib.Search
import NetworkUtility.Lib.Serial
import NetworkUtility.Lib.Turns
import NetworkUtility.MulticastHelper.Envelope
import NetworkUtility.MulticastHelper.Group
import NetworkUtility.MulticastHelper.Receiving
import NetworkUtility.MulticastHelper.SendQueue
import NetworkUtility.StringCodec.Base64
import NetworkUtility.StringCodec.Containers
import NetworkUtility.StringCodec.Encode
import NetworkUtility.StringCodec.Guards
import NetworkUtility.StringCodec.Hex
import NetworkUtility.StringCodec.RoundTrip
import NetworkUtility.TaskActuator.Shutdown
import NetworkUtility.Tcp.Accepts
import NetworkUtility.Tcp.Acquire
import NetworkUtility.Tcp.ConnectRequest
import NetworkUtility.Tcp.EndOfStream
import NetworkUtility.Tcp.Forward
import NetworkUtility.Tcp.ForwardRequest
import NetworkUtility.Tcp.ForwardServer
import NetworkUtility.Tcp.Gateway
import NetworkUtility.Tcp.Relaying
import NetworkUtility.Tcp.Request
import NetworkUtility.Tcp.Scanner
import NetworkUtility.Tcp.Sealed
import NetworkUtility.Tcp.Session
import NetworkUtility.Tcp.Surplus
import NetworkUtility.Tcp.Truthful
import NetworkUtility.Tcp.Tunnel
import NetworkUtility.WebsocketClient.Init
import NetworkUtility.WebsocketClient.Join
import NetworkUtility.WebsocketClient.LastCall
import NetworkUtility.WebsocketClient.Model
import NetworkUtility.WebsocketClient.Notices
import NetworkUtility.WebsocketClient.PingPong
import NetworkUtility.WebsocketClient.Receipt
import NetworkUtility.WebsocketClient.Sound
import NetworkUtility.WebsocketClient.Steps
import NetworkUtility.Websocketpp.Accepted
import NetworkUtility.Websocketpp.Closing
import NetworkUtility.Websocketpp.Connection
import NetworkUtility.Websocketpp.Frame
import NetworkUtility.Websocketpp.Frames
import NetworkUtility.Websocketpp.Hybi13
import NetworkUtility.Websocketpp.Link
import NetworkUtility.Websocketpp.Messages
import NetworkUtility.Websocketpp.Reading
import NetworkUtility.Websocketpp.Utf8
import NetworkUtility.Websocketpp.Writing
