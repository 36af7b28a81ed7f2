import Knet.Lib.StepSystem
import Knet.Lib.Memory
import Knet.Lib.Segments
import Knet.Lib.Bytes
import Knet.Lib.ReceiveLoop
import Knet.Lib.Ring
import Knet.Lib.Pairing
import Knet.Lib.Text
import Knet.Lib.OrderedMap
import Knet.Lib.HttpMessage
import Knet.Lib.CountedLoop
import Knet.Lib.FrameFormat
import Knet.Lib.Serial
import Knet.Lib.Arq
import Knet.Utils.LoopBuffer
import Knet.Utils.Url
import Knet.Utils.UrlGrammar
import Knet.Utils.Mpush
import Knet.Utils.OneShot
import Knet.Utils.Registry
import Knet.Utils.Timer
import Knet.Utils.TimerFrame
import Knet.Utils.TimerView
import Knet.Tcp.Basic
import Knet.Tcp.Socket
import Knet.Tcp.Loop
import Knet.Tcp.Reading
import Knet.Tcp.Framing
import Knet.Tcp.HandlerChain
import Knet.Tcp.Sending
import Knet.Tcp.Rearming
import Knet.Tcp.Lifecycle
import Knet.Tcp.Buffer
import Knet.Tcp.Msend
import Knet.Tls.Socket
import Knet.Tls.Buffer
import Knet.Pipe.Protocol
import Knet.Pipe.Factory
import Knet.Pipe.KPipe
import Knet.Pipe.Binding
import Knet.Pipe.Handshake
import Knet.Pipe.World
import Knet.Pipe.Agreement
import Knet.Http.Decoder
import Knet.Http.Connection
import Knet.Http.Encoder
import Knet.Http.Request
import Knet.Http.Response
import Knet.Http.Handler
import Knet.Http.HttpUrl
import Knet.Http.Validators
import Knet.Http.NormalizeIpv6
import Knet.Http.ParseUrl
import Knet.Http.NormalizePath
import Knet.Http.PercentEncoding
import Knet.Http.UrlGrammar
import Knet.Http.Ipv6Normal
import Knet.Http.Ipv6Written
import Knet.Http.UrlSafety
import Knet.Http.UrlRoundTrip
import Knet.WebSocket.Frame
import Knet.WebSocket.SendText
import Knet.WebSocket.Stream
import Knet.WebSocket.Upgrade
import Knet.WebSocket.Framing
import Knet.WebSocket.Reader
import Knet.WebSocket.Routing
import Knet.Http.Message
import Knet.Kcp.Connection
import Knet.Kcp.Handshake
import Knet.Kcp.Receive
import Knet.Kcp.Ikcp
import Knet.Kcp.Established
import Knet.Kcp.Listener
import Knet.Kcp.Life
import Knet.Kcp.Stale
import Knet.Kcp.Teardown
import Knet.Kcp.Messages
import Knet.Kcp.Drain
import Knet.Kcp.Segment
import Knet.Kcp.Settings
import Knet.Kcp.Input
import Knet.Kcp.Flush
import Knet.Kcp.Direction
import Knet.Kcp.Peers
import Knet.Kcp.Datagrams
import Knet.Kcp.Buffer
import Knet.Kcp.Delivery
import Knet.Kcp.Windows
import Knet.Kcp.Session
import Knet.Kcp.Clock
import Knet.Kcp.Estimates
import Knet.Udp.Receive
import Knet.Udp.Send
import Knet.Datagram
import Knet.Msend
import Knet.Http.Parser.Cut
import Knet.Http.Parser.Lengths
