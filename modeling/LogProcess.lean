import LogProcess.Foundation.OrderedMap
import LogProcess.Foundation.Bytes
import LogProcess.Foundation.MachineInt
import LogProcess.Foundation.Decimal
import LogProcess.Foundation.Decisions
import LogProcess.Foundation.FlatJson
import LogProcess.Foundation.Chain
import LogProcess.Foundation.Fallible
import LogProcess.Foundation.FanOut
import LogProcess.Foundation.Sorting
import LogProcess.Foundation.ComparisonSort
import LogProcess.Foundation.Runs
import LogProcess.Foundation.AtomicObject
import LogProcess.Foundation.BoundedQueue
import LogProcess.Foundation.RetryRpc
import LogProcess.Foundation.Feed
import LogProcess.Foundation.RpcReply
import LogProcess.Foundation.TaskLedger
import LogProcess.Foundation.Ring
import LogProcess.Foundation.Loop
import LogProcess.Foundation.InputStream
import LogProcess.Foundation.Pattern
import LogProcess.Foundation.FirstMinimum
import LogProcess.Common.Skiplist
import LogProcess.Common.SkiplistInvariant
import LogProcess.Common.SkiplistUpdate
import LogProcess.Common.SkiplistRefinement
import LogProcess.Common.SkiplistHeights
import LogProcess.Common.FnvHash
import LogProcess.Common.Bitmap
import LogProcess.Common.ConsistentHash
import LogProcess.Common.Trie
import LogProcess.Common.TrieCodes
import LogProcess.Common.Rocksdb
import LogProcess.Common.RangeScan
import LogProcess.Common.Heap
import LogProcess.Common.IntHeap
import LogProcess.Common.HeapSort
import LogProcess.Common.HeapOrder
import LogProcess.Common.ThreadPool
import LogProcess.Common.ThreadPoolPending
import LogProcess.Common.DelayTasks
import LogProcess.Common.Redis
import LogProcess.Common.RedisText
import LogProcess.Common.LockFreeQueue
import LogProcess.Common.LockFreeQueueThreads
import LogProcess.Common.LockFreeQueueHistories
import LogProcess.Common.LockFreeQueueConsumers
import LogProcess.Preprocess.PvStater
import LogProcess.Process.QueryFreqStat
import LogProcess.Process.Storage
import LogProcess.Process.ReadFromRocksdb
import LogProcess.Process.Transmit
import LogProcess.Process.TransmitCodec
import LogProcess.Preprocess.AccessImpl
import LogProcess.Preprocess.LogFields
import LogProcess.Preprocess.LogTokens
import LogProcess.Preprocess.ErrnoValue
import LogProcess.Preprocess.LogMinute
import LogProcess.Preprocess.DataPreProcess
import LogProcess.Preprocess.Handover
import LogProcess.Preprocess.GracefulStop
import LogProcess.Preprocess.Subscribe
import LogProcess.Preprocess.DataFieldRuler
import LogProcess.Preprocess.FieldQueries
import LogProcess.Preprocess.FieldConfig
import LogProcess.Preprocess.AccessFilter
import LogProcess.Preprocess.PvInterference
import LogProcess.Preprocess.AccessServer
import LogProcess.Process.CheckAction
import LogProcess.Process.SearchPattern
import LogProcess.Process.AllCheck
import LogProcess.Process.FilterBounds
import LogProcess.Process.Checklist
import LogProcess.Process.ChecklistConfig
import LogProcess.Process.QueryFreqFile
import LogProcess.Process.QueryFreqLoad
import LogProcess.Process.HashRange
import LogProcess.Process.Topk
import LogProcess.Process.LogProcessStat
import LogProcess.Process.DataReceive
import LogProcess.Process.AlarmFields
import LogProcess.Process.Cluster
import LogProcess.Process.ClusterQueries
import LogProcess.Process.ClusterAlarms
import LogProcess.Process.ClusterReturns
import LogProcess.Process.Delivery
import LogProcess.Process.CookieStat
import LogProcess.Process.ProcessServer
import LogProcess.Process.Selection
import LogProcess.Process.SortCalls
import LogProcess.Process.StoredRows
import LogProcess.Process.TopkBounds
import LogProcess.Process.ChecklistDuplicates
import LogProcess.Process.RpcCompletion
import LogProcess.Platform.Relax
import LogProcess.Platform.Transmit
import LogProcess.Platform.Alarm
import LogProcess.Platform.Chklist
