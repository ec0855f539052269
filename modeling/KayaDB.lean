import KayaDB.Core.Hlc
import KayaDB.Ctl.Backup
import KayaDB.Manifest.Truncation
import KayaDB.Raft.CompactedSafety
import KayaDB.Raft.Election
import KayaDB.Raft.RangeIds
import KayaDB.Raft.RangeMeta
import KayaDB.Raft.Reads
import KayaDB.Server.Client
import KayaDB.Server.FlushCrash
import KayaDB.Server.Replies
import KayaDB.Server.SnapshotPayload
import KayaDB.Server.SnapshotShipping
import KayaDB.Server.Wire
import KayaDB.Sim.Search
import KayaDB.Sst.BloomBuild
import KayaDB.Storage.CrashPoints
import KayaDB.Storage.DryRun
import KayaDB.Storage.IndexScan
import KayaDB.Storage.RelativePath
import KayaDB.Storage.StableSnapshots
import KayaDB.Storage.TxnIds
import KayaDB.Storage.TxnLatePrepare
import KayaDB.Storage.TxnProposals
import KayaDB.Storage.TxnRecovery
import KayaDB.Storage.VersionMap
import KayaDB.Wal.GroupCommit
import KayaDB.Wal.Repeatable
import KayaDB.Wal.Truncation
