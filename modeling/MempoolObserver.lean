import MempoolObserver.Library.Collections
import MempoolObserver.Library.Regrouping
import MempoolObserver.Shared.Models
import MempoolObserver.Shared.MempoolLedger
import MempoolObserver.Shared.FlushAgreement
import MempoolObserver.Db.MempoolDeltas
import MempoolObserver.Infra.BlockGate
import MempoolObserver.Db.ClusterMembership
import MempoolObserver.Services.Schedule
import MempoolObserver.Services.FlushHistory
import MempoolObserver.Services.BlockExclusion
import MempoolObserver.Services.MinedLabels
import MempoolObserver.Db.ClusterStore
import MempoolObserver.Db.ClusterVersions
import MempoolObserver.Db.ClusterLinks
import MempoolObserver.Db.ClusterInvariant
import MempoolObserver.Services.ClusterDelta
import MempoolObserver.Services.Cluster
import MempoolObserver.Services.ClusterUpserts
import MempoolObserver.Services.ClusterCandidates
import MempoolObserver.Services.ClusterRounds
import MempoolObserver.Services.CandidateQueue
import MempoolObserver.Services.ClusterConsistency
import MempoolObserver.Services.Regrouping
import MempoolObserver.Services.Bootstrap
import MempoolObserver.Library.Replication
import MempoolObserver.Services.ClusterStream
import MempoolObserver.Web.ClusterDeltaSocket
import MempoolObserver.Web.WsProvider
import MempoolObserver.Web.ClusterPage
import MempoolObserver.Services.BlockSync
import MempoolObserver.Services.CounterSample
import MempoolObserver.Services.FlushDelay
import MempoolObserver.Library.SnapshotCut
import MempoolObserver.Services.MempoolStream
import MempoolObserver.Shared.Removals
import MempoolObserver.Services.ClusterCommits
import MempoolObserver.Services.Confirmation
import MempoolObserver.Services.MinedClusters
import MempoolObserver.Services.MinedRounds
import MempoolObserver.Services.Eviction
import MempoolObserver.Services.StaleMembers
import MempoolObserver.Services.Quiescence
import MempoolObserver.Db.ActiveLookup
import MempoolObserver.Db.TransactionRows
import MempoolObserver.Services.TxBackfill
import MempoolObserver.Services.TxBackfillRuns
import MempoolObserver.Db.WriteBatch
import MempoolObserver.Shared.NetResidency
import MempoolObserver.Library.Grouping
import MempoolObserver.Services.Resolution
import MempoolObserver.Library.Text
import MempoolObserver.Shared.Env
import MempoolObserver.Library.Deviation
import MempoolObserver.Library.Segmentation
import MempoolObserver.Web.ColorTiers
import MempoolObserver.Web.JenksTable
import MempoolObserver.Web.NaturalBreaks
import MempoolObserver.Services.MinedSplit
import MempoolObserver.Library.Absorption
import MempoolObserver.Services.CandidateUpserts
import MempoolObserver.Services.CandidateAnswers
import MempoolObserver.Services.CandidateSync
import MempoolObserver.Services.LateConfirmation
import MempoolObserver.Services.ChangeSets
import MempoolObserver.Library.Comparison
import MempoolObserver.Web.DataTable
import MempoolObserver.Web.Downtime
import MempoolObserver.Web.LegendLabel
import MempoolObserver.Web.ClusterMetrics
import MempoolObserver.Library.Cycles
import MempoolObserver.Web.ClustersSearch
import MempoolObserver.Web.TxDagLayout
import MempoolObserver.Web.TxDagGraph
import MempoolObserver.Services.LateFlush
import MempoolObserver.Services.TransactionLookup
import MempoolObserver.Library.Table
import MempoolObserver.Web.TransactionCache
import MempoolObserver.Web.CacheInvariant
import MempoolObserver.Web.CachedLookups
import MempoolObserver.Library.Channel
import MempoolObserver.Services.NodeHealth
import MempoolObserver.Infra.Readiness
import MempoolObserver.Services.NodeStatus
import MempoolObserver.Services.WsConnection
import MempoolObserver.Services.WsSubscriptions
import MempoolObserver.Library.Measures
import MempoolObserver.Observer.PooledTransport
import MempoolObserver.Services.TxBackfillDrain
import MempoolObserver.Services.ChainTip
import MempoolObserver.Infra.Disk
import MempoolObserver.Library.RunEnds
import MempoolObserver.Web.ChartPlot
import MempoolObserver.Web.FeerateDiagramChart
import MempoolObserver.Library.Adjacent
import MempoolObserver.Web.TimeCharts
import MempoolObserver.Services.ServerLives
import MempoolObserver.Web.HttpGet
import MempoolObserver.Web.SvgViewport
import MempoolObserver.Web.TxDagCanvas
import MempoolObserver.Library.FifoLock
import MempoolObserver.Services.Shutdown
