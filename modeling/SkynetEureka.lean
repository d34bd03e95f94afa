import SkynetEureka.Locks.RwLock
import SkynetEureka.Scheduler.Queues
import SkynetEureka.Scheduler.Start
import SkynetEureka.SocketServer.Sending
import SkynetEureka.SocketServer.Slots
import SkynetEureka.Scheduler.Workers
import SkynetEureka.Scheduler.Frame
import SkynetEureka.Scheduler.Invariants
import SkynetEureka.Scheduler.Dispatch
import SkynetEureka.Cluster.Requests
import SkynetEureka.Cluster.Channel
import SkynetEureka.Cluster.Responses
import SkynetEureka.Lib.Chains
import SkynetEureka.Gate.Netpack
import SkynetEureka.Gate.NetpackTheorems
import SkynetEureka.Gate.Delivery
import SkynetEureka.Cluster.CoreTheorems
import SkynetEureka.Seri.Untrusted
import SkynetEureka.NetPack.Reassembly
import SkynetEureka.NetPack.Frame
import SkynetEureka.NetPack.QueueTheorems
import SkynetEureka.NetPack.Netpackext
import SkynetEureka.Lib.RingBuffer
import SkynetEureka.HandleStore.Growth
import SkynetEureka.HandleStore.Launch
import SkynetEureka.HandleStore.Registry
import SkynetEureka.Lib.Agenda
import SkynetEureka.Lib.Bytes
import SkynetEureka.Lib.Run
import SkynetEureka.Seri.RoundTrip
import SkynetEureka.TimerWheel.ClockTheorems
import SkynetEureka.HarborService.Harbor
import SkynetEureka.HarborService.HarborTheorems
import SkynetEureka.HarborService.Wire
import SkynetEureka.HarborService.System
import SkynetEureka.HarborService.Moves
import SkynetEureka.HarborService.Sound
import SkynetEureka.HarborService.Names
import SkynetEureka.HarborService.Lost
import SkynetEureka.HarborService.Order
import SkynetEureka.HarborMaster.Cmaster
import SkynetEureka.HarborMaster.Cslave
import SkynetEureka.HarborMaster.Network
import SkynetEureka.HarborMaster.Agreement
import SkynetEureka.Sproto.Pack
import SkynetEureka.Sproto.Segments
import SkynetEureka.Sproto.UnpackTheorems
import SkynetEureka.Sproto.Packing
import SkynetEureka.Sproto.PackTheorems
import SkynetEureka.Sproto.PackLoop
import SkynetEureka.Sproto.Schema
import SkynetEureka.Sproto.Decode
import SkynetEureka.Sproto.Untrusted
import SkynetEureka.Sproto.Bundle
import SkynetEureka.Lib.Table
import SkynetEureka.Lib.Lists
import SkynetEureka.Coroutines.Scheduler
import SkynetEureka.Coroutines.Skynet
import SkynetEureka.Coroutines.Moves
import SkynetEureka.Coroutines.Tables
import SkynetEureka.Coroutines.Wakeups
import SkynetEureka.Coroutines.Calls
import SkynetEureka.Coroutines.Answers
import SkynetEureka.DataCenter.Datacenterd
import SkynetEureka.DataCenter.Paths
import SkynetEureka.DataCenter.Waiters
import SkynetEureka.Gateway.Tcpservice
import SkynetEureka.Gateway.Watchdog
import SkynetEureka.Gateway.Released
import SkynetEureka.Clusterd.Channels
import SkynetEureka.Clusterd.Openings
import SkynetEureka.Clusteragent.Names
import SkynetEureka.Clusteragent.Lookups
import SkynetEureka.ServiceMgr.Managers
import SkynetEureka.ServiceMgr.Unique
import SkynetEureka.MsgServer.Cache
import SkynetEureka.MsgServer.Responses
import SkynetEureka.MsgServer.Server
import SkynetEureka.MsgServer.Logout
import SkynetEureka.MsgServer.Resend
import SkynetEureka.Bson.Value
import SkynetEureka.Bson.Decode
import SkynetEureka.Bson.Untrusted
import SkynetEureka.Bson.Utf8
import SkynetEureka.Queue.Fair
import SkynetEureka.Clusterd.Sockets
import SkynetEureka.Eureka.Client
import SkynetEureka.Eureka.Service
import SkynetEureka.Eureka.Heartbeat
import SkynetEureka.Eureka.Ribbon
import SkynetEureka.Eureka.Updates
import SkynetEureka.Lib.Linked
import SkynetEureka.ServiceGate.Databuffer
import SkynetEureka.ServiceGate.Gate
import SkynetEureka.ServiceGate.DatabufferTheorems
import SkynetEureka.ServiceGate.Packages
import SkynetEureka.ServiceGate.Dispatch
import SkynetEureka.ServiceGate.Forwarding
import SkynetEureka.Multicast.Daemon
import SkynetEureka.Multicast.Invariants
import SkynetEureka.Multicast.Publications
import SkynetEureka.SocketChannel.Requests
import SkynetEureka.NetPack.Session
import SkynetEureka.LoginServer.Verdicts
import SkynetEureka.RedisCluster.Connections
import SkynetEureka.Stm.Object
import SkynetEureka.Stm.Counts
import SkynetEureka.Stm.Threads
import SkynetEureka.Stm.Readers
import SkynetEureka.Stm.Writing
import SkynetEureka.Stm.Freed
import SkynetEureka.Socket.Buffer
import SkynetEureka.Socket.Reading
import SkynetEureka.Socket.Stream
import SkynetEureka.Multicast.Links
import SkynetEureka.Multicast.Subscriptions
import SkynetEureka.Datasheet.Lives
import SkynetEureka.Eureka.Balance
import SkynetEureka.Gateway.Clients
import SkynetEureka.NetPack.Packet
import SkynetEureka.Sharedata.Sharedatad
import SkynetEureka.Mongo.Reply
import SkynetEureka.Lib.Feistel
import SkynetEureka.Crypt.Des
import SkynetEureka.Lib.Blocks
import SkynetEureka.Lib.Cells
import SkynetEureka.Crypt.DesTheorems
import SkynetEureka.Crypt.Text
import SkynetEureka.Crypt.TextTheorems
import SkynetEureka.HandleStore.Names
import SkynetEureka.HandleStore.NamesTheorems
import SkynetEureka.Server.Send
import SkynetEureka.Server.SendTheorems
import SkynetEureka.ServiceGate.Hashid
import SkynetEureka.ServiceGate.HashidTheorems
import SkynetEureka.Coroutines.ForkQueue
import SkynetEureka.ServiceGate.Framed
import SkynetEureka.ServiceGate.Contents
import SkynetEureka.ServiceGate.Receivers
import SkynetEureka.ServiceGate.Oversized
import SkynetEureka.Socket.Pool
import SkynetEureka.Socket.PoolTheorems
import SkynetEureka.Crypt.Powmod
import SkynetEureka.Crypt.Hex
import SkynetEureka.Crypt.Base64
import SkynetEureka.Crypt.Base64Theorems
import SkynetEureka.Crypt.Base64RoundTrip
import SkynetEureka.Sproto.Lpack
import SkynetEureka.Sproto.RoundTrip
import SkynetEureka.Lib.Decimal
import SkynetEureka.Mongo.Scram
import SkynetEureka.Mongo.Cursor
import SkynetEureka.Redis.Response
import SkynetEureka.Redis.Request
import SkynetEureka.MsgServer.Handshakes
import SkynetEureka.Http.Fields
