import Chatroom.Lib.Trace
import Chatroom.Transport
import Chatroom.Common.Timer
import Chatroom.OnlineStatus
import Chatroom.Status.LoadBalancer
import Chatroom.Status.Uploader
import Chatroom.Server.SendQueue
import Chatroom.Server.Delivery
import Chatroom.Server.Backend.Locks
import Chatroom.Server.Backend.Uids
import Chatroom.Server.Backend.Authenticity
import Chatroom.Http.Dbm.Waiting
import Chatroom.Http.Dbm.Restart
import Chatroom.Http.Dbm.Register
import Chatroom.Cluster.Offline
import Chatroom.Cluster.SingleSession
import Chatroom.Status.HeapOrder
import Chatroom.Status.Balancing
import Chatroom.Status.Expiry
import Chatroom.Utils.SnowflakeId
import Chatroom.Server.Handover
import Chatroom.Server.OnlineSets
import Chatroom.Common.TimerThreads
import Chatroom.Server.Backend.Residue
import Chatroom.Server.MsgHandler
import Chatroom.Client.SendWorker
import Chatroom.Http.Dbm.Security
import Chatroom.Http.Dbm.DBConn
import Chatroom.Server.Backend.Order
import Chatroom.Server.Backend.Load
import Chatroom.Http.Token
import Chatroom.Http.Answers
import Chatroom.ChatTrip
import Chatroom.Status.Service
import Chatroom.Cluster.Streams
import Chatroom.Http.Connection
import Chatroom.Server.Address
import Chatroom.Client.GatewayHelper
import Chatroom.Http.Kicks
