import RackKey.Lib.Words
import RackKey.Lib.ByteFile
import RackKey.Lib.TornWrites
import RackKey.Lib.Bitmap
import RackKey.Lib.Extents
import RackKey.Lib.Keyed
import RackKey.Lib.Runs
import RackKey.Lib.Simulation
import RackKey.Lib.WriteBehind
import RackKey.Lib.KeyValue
import RackKey.Lib.Updates
import RackKey.Lib.Multimap
import RackKey.Lib.Tally
import RackKey.Lib.Chunks
import RackKey.Lib.Circular
import RackKey.Shared.Utils
import RackKey.Shared.Block
import RackKey.Shared.Payloads
import RackKey.Shared.KeyWidths
import RackKey.Shared.Decoders
import RackKey.Shared.Http
import RackKey.Storage.FreeSpace
import RackKey.Storage.Ranges
import RackKey.Storage.Allocator
import RackKey.Storage.Table
import RackKey.Storage.StoreFile
import RackKey.Storage.DiskStorage
import RackKey.Storage.Layout
import RackKey.Storage.Invariant
import RackKey.Storage.Reopen
import RackKey.Storage.FileSize
import RackKey.Storage.Opening
import RackKey.Storage.WellFormed
import RackKey.Storage.Rollback
import RackKey.Storage.Durability
import RackKey.Storage.Contents
import RackKey.Storage.ReadBack
import RackKey.Storage.Capacity
import RackKey.Storage.Usage
import RackKey.Storage.Reservation
import RackKey.Storage.Frames
import RackKey.Storage.Crash
import RackKey.Storage.Streams
import RackKey.Storage.WriteBehind
import RackKey.Storage.Space
import RackKey.Storage.Restart
import RackKey.Storage.Server
import RackKey.Storage.Replies
import RackKey.Master.HashRing
import RackKey.Master.Ring
import RackKey.Master.Server
import RackKey.Master.Blocks
import RackKey.Master.Chunking
import RackKey.Master.Placement
import RackKey.Master.Successors
import RackKey.Master.Stability
import RackKey.Master.ScaleOut
import RackKey.Cluster.Node
import RackKey.Cluster.Read
import RackKey.Cluster.Write
import RackKey.Cluster.RoundTrip
import RackKey.Cluster.Delete
import RackKey.Cluster.Sync
import RackKey.Cluster.Recovery
import RackKey.Cluster.KeyIdentity
import RackKey.Cluster.Reachable
import RackKey.Cluster.FailedPut
import RackKey.Cluster.Isolation
import RackKey.Cluster.Counts
import RackKey.Cluster.Durable
import RackKey.Cluster.NodeFiles
import RackKey.Cluster.Accounting
import RackKey.Cluster.Sizes
import RackKey.Cluster.DeleteRetry
import RackKey.Cluster.SyncRace
import RackKey.Cluster.Concurrent
import RackKey.Cluster.Atomic
import RackKey.Cluster.Tasks
import RackKey.Cluster.OneKey
import RackKey.Cluster.SingleSteps
import RackKey.Cluster.Alone
import RackKey.Cluster.Replicas
import RackKey.Cluster.Health
import RackKey.Cluster.Room
import RackKey.Cluster.Phases
import RackKey.Cluster.Linear
import RackKey.Cluster.Lifetime
import RackKey.Cluster.UsedBytes
import RackKey.Cluster.Recount
import RackKey.Cluster.NullMap
