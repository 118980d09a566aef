import Babuza.Utility.SwapQueue
import Babuza.Utility.ConnectionPool
import Babuza.Walbase.CacheRuns
import Babuza.Babuzawal.MissingRecords
import Babuza.Babuzawal.PurgeComplete
import Babuza.Babuzawal.Oversized
import Babuza.Babuzawal.ArbitraryBytes
import Babuza.WalManager
import Babuza.SessionLru
import Babuza.ClusterHistory
import Babuza.Raft.SaveDurability
import Babuza.Raft.SessionLoops
import Babuza.Raft.LinearizableRead
import Babuza.Raft.Bootstrap
import Babuza.Raft.SnapshotConf
import Babuza.Raft.Leadership
import Babuza.Raft.SendMessages
import Babuza.Raft.DoSnapshot
import Babuza.Experimental.Scheduler
import Babuza.Transport.Frame
import Babuza.Snapshot.Purge
import Babuza.Snapshot.RemoveData
import Babuza.Snapshot.Scan
import Babuza.Transport.SnapshotRepeat
import Babuza.Transport.TcpSession
import Babuza.Transport.ClientCalls
import Babuza.Transport.SnapshotReports
import Babuza.Experimental.ApplySnapshot
import Babuza.Experimental.DiskRestart
import Babuza.Experimental.Heartbeats
import Babuza.Experimental.HeartbeatQueue
import Babuza.Experimental.Replies
import Babuza.Experimental.CreateWal
import Babuza.Experimental.ApplyOnce
import Babuza.Raft.SessionResponses
import Babuza.Raft.RestartPath
import Babuza.Raft.ReplyIds
