import BuildYourOwnRedis.Foundation.Bytes
import BuildYourOwnRedis.Foundation.BitString
import BuildYourOwnRedis.Foundation.Puller
import BuildYourOwnRedis.Foundation.Reader
import BuildYourOwnRedis.Foundation.Transition
import BuildYourOwnRedis.Foundation.Ranking
import BuildYourOwnRedis.Foundation.Refinement
import BuildYourOwnRedis.Utils
import BuildYourOwnRedis.Numerals
import BuildYourOwnRedis.Resp.Message
import BuildYourOwnRedis.Resp.ParseHelper
import BuildYourOwnRedis.Resp.PutBack
import BuildYourOwnRedis.Resp.MessageParser
import BuildYourOwnRedis.Resp.Reader
import BuildYourOwnRedis.Resp.Framing
import BuildYourOwnRedis.Resp.Requests
import BuildYourOwnRedis.Resp.PendingLength
import BuildYourOwnRedis.Resp.Completion
import BuildYourOwnRedis.Resp.Grammar
import BuildYourOwnRedis.Resp.Malformed
import BuildYourOwnRedis.Storage.StreamId
import BuildYourOwnRedis.Storage.IdGrammar
import BuildYourOwnRedis.Command.Command
import BuildYourOwnRedis.Command.Defined
import BuildYourOwnRedis.Command.XReadGrammar
import BuildYourOwnRedis.Command.Reread
import BuildYourOwnRedis.Command.ErrorTexts
import BuildYourOwnRedis.Resp.RoundTrip
import BuildYourOwnRedis.Resp.UniqueCode
import BuildYourOwnRedis.Rdb.RdbParser
import BuildYourOwnRedis.Rdb.Truncated
import BuildYourOwnRedis.Rdb.RdbFile
import BuildYourOwnRedis.Rdb.Lasting
import BuildYourOwnRedis.Storage.Value
import BuildYourOwnRedis.Storage.Append
import BuildYourOwnRedis.Storage.Storage
import BuildYourOwnRedis.Storage.WaitLists
import BuildYourOwnRedis.Storage.Blocking
import BuildYourOwnRedis.Storage.Iterators
import BuildYourOwnRedis.Storage.Consumer
import BuildYourOwnRedis.Storage.Expiry
import BuildYourOwnRedis.Storage.Casts
import BuildYourOwnRedis.Storage.Range
import BuildYourOwnRedis.Storage.Xadd
import BuildYourOwnRedis.Storage.Wakeup
import BuildYourOwnRedis.Server.ServerInfo
import BuildYourOwnRedis.Server.CommandLine
import BuildYourOwnRedis.Server.Base64
import BuildYourOwnRedis.Server.StorageMiddleware
import BuildYourOwnRedis.Server.Waits
import BuildYourOwnRedis.Server.WaitOnce
import BuildYourOwnRedis.Server.Server
import BuildYourOwnRedis.Server.ReplyOrder
import BuildYourOwnRedis.Server.DeferredReplies
import BuildYourOwnRedis.Server.Says
import BuildYourOwnRedis.Server.Connections
import BuildYourOwnRedis.Server.ReplyBytes
import BuildYourOwnRedis.Net.Pipe
import BuildYourOwnRedis.Replication.ReplicaTalker
import BuildYourOwnRedis.Replication.AckOffset
import BuildYourOwnRedis.Replication.Handshake
import BuildYourOwnRedis.Replication.Cluster
import BuildYourOwnRedis.Replication.Registry
import BuildYourOwnRedis.Replication.Served
import BuildYourOwnRedis.Replication.Log
import BuildYourOwnRedis.Replication.Agreement
import BuildYourOwnRedis.Replication.Moves
import BuildYourOwnRedis.Replication.WaitSafety
import BuildYourOwnRedis.Replication.WaitCount
import BuildYourOwnRedis.Replication.WriteProtection
import BuildYourOwnRedis.Replication.DataSet
import BuildYourOwnRedis.Replication.Convergence
import BuildYourOwnRedis.Replication.HandshakeEnd
import BuildYourOwnRedis.Replication.Outliving
import BuildYourOwnRedis.Replication.Chain
import BuildYourOwnRedis.Server.Handling
import BuildYourOwnRedis.Replication.CatchUp
import BuildYourOwnRedis.Server.Keyspace
import BuildYourOwnRedis.Replication.FullSync
import BuildYourOwnRedis.Replication.Legible
import BuildYourOwnRedis.Replication.Wires
import BuildYourOwnRedis.Net.Poller
import BuildYourOwnRedis.Net.Registrations
import BuildYourOwnRedis.Net.Handler
import BuildYourOwnRedis.Net.ReadPath
import BuildYourOwnRedis.Net.WritePath
import BuildYourOwnRedis.Net.Network
import BuildYourOwnRedis.Net.Dispatch
import BuildYourOwnRedis.Net.Wiring
import BuildYourOwnRedis.Net.Removal
import BuildYourOwnRedis.Net.Attended
import BuildYourOwnRedis.Net.Rounds
import BuildYourOwnRedis.Net.EventLoop
import BuildYourOwnRedis.Net.Deadline
