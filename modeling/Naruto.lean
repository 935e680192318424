import Naruto.Theory.LittleEndian
import Naruto.Theory.Runs
import Naruto.Theory.SegmentedLog
import Naruto.Utils.Bytes
import Naruto.Utils.Pack
import Naruto.Utils.PackLoop
import Naruto.Utils.AofName
import Naruto.Utils.File
import Naruto.Replication.ReplicaLink
import Naruto.Utils.Crc
import Naruto.Database.Object
import Naruto.Database.Buckets
import Naruto.Theory.TypedCells
import Naruto.Command.Commands
import Naruto.Command.Hset
import Naruto.Link.ClientLink
import Naruto.Theory.KWayMerge
import Naruto.Sink.RotateFileStream
import Naruto.Replication.Backlog
import Naruto.Replication.Shutdown
import Naruto.Replication.DoubleBuffer
import Naruto.Theory.CommandLog
import Naruto.Command.Replay
import Naruto.Replication.CommandOrder
import Naruto.Replication.Replication
import Naruto.Replication.DatabaseFile
import Naruto.Replication.CrashRecovery
import Naruto.Replication.Relay
import Naruto.Replication.SlavePosition
import Naruto.Connection.Connect
import Naruto.Replication.FullSync
import Naruto.Database.DumpFile
import Naruto.Command.Hget
import Naruto.Theory.Linearization
import Naruto.Theory.Coverage
import Naruto.Command.Workers
import Naruto.Command.WorkersStore
import Naruto.Command.Overlap
import Naruto.Link.Dispatch
import Naruto.Utils.PackCodec
import Naruto.Connection.WholeRecv
import Naruto.Command.WorkersOrder
import Naruto.Replication.Psync
import Naruto.Replication.FirstSync
import Naruto.Replication.SlaveState
import Naruto.Replication.Slave
import Naruto.Replication.PositionOrigin
import Naruto.Replication.Held
import Naruto.Replication.SlaveCoverage
import Naruto.Replication.MasterDump
import Naruto.Theory.BufferedOutput
import Naruto.Database.DumpStream
import Naruto.Replication.BgsaveChild
import Naruto.Command.HsetReply
import Naruto.Replication.Slaves
import Naruto.Utils.PackCursor
import Naruto.Replication.ReadTurns
import Naruto.Replication.ReadSafety
import Naruto.Replication.ByteBacklog
import Naruto.Theory.Segmentation
import Naruto.Utils.Directory
import Naruto.Sink.RotateDirectory
import Naruto.Theory.CyclicRedundancy
import Naruto.Utils.Checksum
import Naruto.Database.KeySlot
import Naruto.Utils.BytesQueue
import Naruto.Database.ListObject
import Naruto.Sink.AofReaders
import Naruto.Connection.ConnectionPool
import Naruto.Cluster.Ping
import Naruto.Cluster.ClusterView
import Naruto.Cluster.Meet
import Naruto.Cluster.UpdateView
import Naruto.Cluster.ClusterCron
import Naruto.Theory.TracedMemory
import Naruto.Utils.RandomID
import Naruto.Theory.Simulation
import Naruto.Theory.Mailbox
import Naruto.Server.ConnectWorker
import Naruto.Replication.Pair
import Naruto.Replication.PairCoverage
import Naruto.Replication.PairProgress
import Naruto.Theory.Responder
import Naruto.Link.Session
import Naruto.Link.SessionStep
import Naruto.Link.SessionOrder
import Naruto.Clients.Kunai
import Naruto.Theory.Barrier
import Naruto.Server.Lifecycle
import Naruto.Server.LifecycleStages
import Naruto.Server.Shutdown
import Naruto.Theory.CellTable
import Naruto.Database.StoreRuns
import Naruto.Connection.Establish
