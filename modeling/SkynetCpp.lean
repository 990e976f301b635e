import SkynetCpp.Proofs.Conservation
import SkynetCpp.Proofs.Lifecycle
import SkynetCpp.Proofs.LuaSeri
import SkynetCpp.Proofs.ClusterConnection
import SkynetCpp.Proofs.Clusterd
import SkynetCpp.Proofs.Socket
import SkynetCpp.Proofs.ClusterCodec
import SkynetCpp.Proofs.ClusterSender
import SkynetCpp.Proofs.Delivery
import SkynetCpp.Proofs.WorkerPool
import SkynetCpp.Proofs.SerialQueue
import SkynetCpp.Proofs.ChannelRuns
import SkynetCpp.Proofs.ServiceQueues
import SkynetCpp.Proofs.Network
import SkynetCpp.Proofs.ChannelAuth
import SkynetCpp.Proofs.SocketStream
import SkynetCpp.Proofs.NameRegistry
import SkynetCpp.Proofs.UniqueService
import SkynetCpp.Proofs.ClusterTasks
import SkynetCpp.Proofs.NodeSenders
import SkynetCpp.Proofs.SharedData
import SkynetCpp.Proofs.OrderChannel
import SkynetCpp.Proofs.Sleepers
import SkynetCpp.Proofs.SessionRouting
import SkynetCpp.Proofs.StartBuffer
import SkynetCpp.Proofs.Netpack
import SkynetCpp.Proofs.SocketIds
import SkynetCpp.Proofs.Counters
import SkynetCpp.Proofs.ErrorReports
import SkynetCpp.Proofs.LuaActor
import SkynetCpp.Proofs.SocketWaits
import SkynetCpp.Proofs.GateServer
import SkynetCpp.Proofs.LuaPack
import SkynetCpp.Proofs.LuaUnpack
import SkynetCpp.Proofs.SeriMemory
import SkynetCpp.Proofs.Answers
import SkynetCpp.Proofs.SocketEvents
import SkynetCpp.Proofs.WritePath
import SkynetCpp.Proofs.Listeners
import SkynetCpp.Proofs.ApiCalls
import SkynetCpp.Proofs.RedisReplies
import SkynetCpp.Proofs.RedisRequests
import SkynetCpp.Proofs.RedisWatch
import SkynetCpp.Proofs.BsonDecode
import SkynetCpp.Proofs.BsonRoundTrip
import SkynetCpp.Proofs.RequestOrder
import SkynetCpp.Proofs.Sha1
import SkynetCpp.Proofs.Base64
import SkynetCpp.Proofs.LuaAlloc
import SkynetCpp.Proofs.MongoCursor
import SkynetCpp.Proofs.MongoSession
import SkynetCpp.Proofs.Mysql
import SkynetCpp.Proofs.MysqlRows
import SkynetCpp.Proofs.MysqlReplies
import SkynetCpp.Proofs.MysqlLogin
import SkynetCpp.Proofs.MysqlSession
import SkynetCpp.Proofs.Paths
import SkynetCpp.Proofs.Launcher
import SkynetCpp.Proofs.Multicast
import SkynetCpp.Proofs.SeriBlocks
import SkynetCpp.Proofs.WorkerMonitor
import SkynetCpp.Proofs.Profile
import SkynetCpp.Proofs.Timers
import SkynetCpp.Proofs.MailboxCount
