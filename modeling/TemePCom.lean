import TemePCom.Lib.OnesComplement
import TemePCom.Lib.Bisection
import TemePCom.Lib.Run
import TemePCom.Lib.Loop
import TemePCom.Lib.Chain
import TemePCom.Lib.OrdMap
import TemePCom.Lib.LittleEndian
import TemePCom.Lib.Search
import TemePCom.Lib.Sorting
import TemePCom.Lib.Words
import TemePCom.Lib.LinkedList
import TemePCom.Lib.Lines
import TemePCom.Lib.Decimal
import TemePCom.Lib.Queues
import TemePCom.Router.Skel
import TemePCom.Router.RouterFuns
import TemePCom.Router.RoutingFile
import TemePCom.Router.IpIcmp
import TemePCom.Router.Arp
import TemePCom.Router.Checksum
import TemePCom.Router.LongestPrefix
import TemePCom.Router.Probes
import TemePCom.Router.TableOrder
import TemePCom.Router.WaitingQueue
import TemePCom.Router.Main
import TemePCom.Router.Ports
import TemePCom.Router.Parking
import TemePCom.Router.Deferred
import TemePCom.Router.Network
import TemePCom.Router.Path
import TemePCom.Router.Originated
import TemePCom.Router.Discarding
import TemePCom.Router.ArpTable
import TemePCom.Router.ArpArray
import TemePCom.Router.ArpGrowth
import TemePCom.Router.Isolation
import TemePCom.Router.ArpReplies
import TemePCom.Router.Flushing
import TemePCom.Router.Handshake
import TemePCom.Router.ShortFrames
import TemePCom.Router.Queue
import TemePCom.Router.LinkedSearch
import TemePCom.Router.LinkedMain
import TemePCom.Router.Rfc1071
import TemePCom.Router.IcmpChecksum
import TemePCom.Router.Options
import TemePCom.PubSub.Proto
import TemePCom.PubSub.Framing
import TemePCom.PubSub.Pipe
import TemePCom.PubSub.Subscriber
import TemePCom.PubSub.TopicKey
import TemePCom.PubSub.CommandLines
import TemePCom.PubSub.Message
import TemePCom.PubSub.ServerFuns
import TemePCom.PubSub.Server
import TemePCom.PubSub.Receiving
import TemePCom.PubSub.Decoding
import TemePCom.PubSub.ServerSpec
import TemePCom.PubSub.Bookkeeping
import TemePCom.PubSub.Registry
import TemePCom.PubSub.System
import TemePCom.PubSub.Delivery
import TemePCom.PubSub.Agreement
import TemePCom.PubSub.Streams
import TemePCom.PubSub.Shutdown
import TemePCom.PubSub.History
import TemePCom.PubSub.StoreForward
import TemePCom.PubSub.Broadcast
import TemePCom.Http.Buffer
import TemePCom.Http.ServerOps
import TemePCom.Http.Forms
import TemePCom.Http.Requests
import TemePCom.Http.ResponseHandlers
import TemePCom.Http.Commands
import TemePCom.Http.Response
import TemePCom.Http.Chunking
import TemePCom.Http.CommandSpec
import TemePCom.Http.Outcomes
import TemePCom.Http.Failures
import TemePCom.Http.LibraryToken
import TemePCom.Http.RequestGrammar
import TemePCom.Http.Cookie
import TemePCom.Http.JsonValue
import TemePCom.Http.Survival
import TemePCom.Http.FormInput
import TemePCom.Http.Asking
import TemePCom.Http.Dialogue
import TemePCom.Http.Credentials
import TemePCom.Http.Descriptors
