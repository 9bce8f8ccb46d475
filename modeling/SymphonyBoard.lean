import SymphonyBoard.Auth.Resolver
import SymphonyBoard.Auth.Routing
import SymphonyBoard.Common.Column
import SymphonyBoard.Common.Compare
import SymphonyBoard.Common.Components
import SymphonyBoard.Common.Covering
import SymphonyBoard.Common.Crossing
import SymphonyBoard.Common.Delimited
import SymphonyBoard.Common.DepthFirst
import SymphonyBoard.Common.Descending
import SymphonyBoard.Common.Digits
import SymphonyBoard.Common.FirstRows
import SymphonyBoard.Common.GraphqlTokens
import SymphonyBoard.Common.Greedy
import SymphonyBoard.Common.Json
import SymphonyBoard.Common.JsonText
import SymphonyBoard.Common.Keyed
import SymphonyBoard.Common.Keyset
import SymphonyBoard.Common.Latest
import SymphonyBoard.Common.MapRel
import SymphonyBoard.Common.Markup
import SymphonyBoard.Common.Memo
import SymphonyBoard.Common.OrdMap
import SymphonyBoard.Common.OrdSet
import SymphonyBoard.Common.Paging
import SymphonyBoard.Common.Percent
import SymphonyBoard.Common.PlainCounts
import SymphonyBoard.Common.PostOrder
import SymphonyBoard.Common.Run
import SymphonyBoard.Common.Search
import SymphonyBoard.Common.Shelves
import SymphonyBoard.Common.SingleFlight
import SymphonyBoard.Common.SoftDelete
import SymphonyBoard.Common.StableSort
import SymphonyBoard.Common.Tally
import SymphonyBoard.Common.Tiling
import SymphonyBoard.Common.Transaction
import SymphonyBoard.Common.WorkerPool
import SymphonyBoard.Config.Errors
import SymphonyBoard.Config.Secrets
import SymphonyBoard.Config.Types
import SymphonyBoard.Contract.ActorDirectory
import SymphonyBoard.Contract.Actors
import SymphonyBoard.Contract.Buckets
import SymphonyBoard.Contract.CommitFileStats
import SymphonyBoard.Contract.Days
import SymphonyBoard.Contract.DirectoryOrder
import SymphonyBoard.Contract.DirectoryPartition
import SymphonyBoard.Contract.JsonSchema
import SymphonyBoard.Contract.PinnedProgress
import SymphonyBoard.Contract.Projection
import SymphonyBoard.Contract.ProjectionClosed
import SymphonyBoard.Contract.RangeReads
import SymphonyBoard.Contract.RepoMetrics
import SymphonyBoard.Contract.RepoRows
import SymphonyBoard.Contract.Rows
import SymphonyBoard.Contract.TopActors
import SymphonyBoard.Contract.Types
import SymphonyBoard.Contract.Validate
import SymphonyBoard.Contract.ValidateCorrect
import SymphonyBoard.Db.ActivityBounds
import SymphonyBoard.Db.ActivityRange
import SymphonyBoard.Db.BoundsExact
import SymphonyBoard.Db.BoundsRuns
import SymphonyBoard.Db.ReviewThreads
import SymphonyBoard.Db.Store
import SymphonyBoard.Db.WatermarkWrites
import SymphonyBoard.Graph.Agreement
import SymphonyBoard.Graph.Bounded
import SymphonyBoard.Graph.Connected
import SymphonyBoard.Graph.Frontier
import SymphonyBoard.Graph.Layers
import SymphonyBoard.Graph.Neighborhood
import SymphonyBoard.Graph.Program
import SymphonyBoard.Graph.ProgramForm
import SymphonyBoard.Graph.ProgramView
import SymphonyBoard.Graph.Reads
import SymphonyBoard.Graph.Reduction
import SymphonyBoard.Graph.Response
import SymphonyBoard.Graph.Rollups
import SymphonyBoard.Graph.Sufficient
import SymphonyBoard.Graph.Validator
import SymphonyBoard.Lib.Concurrency
import SymphonyBoard.Live.Bridge
import SymphonyBoard.Live.Broadcaster
import SymphonyBoard.Live.Columns
import SymphonyBoard.Live.Feed
import SymphonyBoard.Live.Receiver
import SymphonyBoard.Live.Snapshot
import SymphonyBoard.Live.Sse
import SymphonyBoard.Live.Store
import SymphonyBoard.Live.Telegram
import SymphonyBoard.Live.TelegramCut
import SymphonyBoard.Model.Activity
import SymphonyBoard.Model.Edges
import SymphonyBoard.Model.ReviewCandidates
import SymphonyBoard.Model.TrackerEdges
import SymphonyBoard.Model.TrackerGrammar
import SymphonyBoard.Model.TrackerRoundTrip
import SymphonyBoard.Model.TrackerTable
import SymphonyBoard.Model.Types
import SymphonyBoard.Server.Coalesce
import SymphonyBoard.Server.CommitFilesRoute
import SymphonyBoard.Server.Range
import SymphonyBoard.Shared.Calendar
import SymphonyBoard.Shared.IsoText
import SymphonyBoard.Shared.Number
import SymphonyBoard.Shared.ProviderLinks
import SymphonyBoard.Shared.Stamp
import SymphonyBoard.Shared.Text
import SymphonyBoard.Shared.Time
import SymphonyBoard.Shared.Zone
import SymphonyBoard.Sources.Adapter
import SymphonyBoard.Sources.CommitFiles
import SymphonyBoard.Sources.Completeness
import SymphonyBoard.Sources.ConcurrentSweep
import SymphonyBoard.Sources.DiffLines
import SymphonyBoard.Sources.GitHub.Fetch
import SymphonyBoard.Sources.GitHub.Incremental
import SymphonyBoard.Sources.GitHub.Normalize
import SymphonyBoard.Sources.GitHub.Reads
import SymphonyBoard.Sources.GitHub.TrackerRefs
import SymphonyBoard.Sources.GitLab.Fetch
import SymphonyBoard.Sources.GitLab.Normalize
import SymphonyBoard.Sources.GitLab.Reads
import SymphonyBoard.Sources.Listed
import SymphonyBoard.Sources.LostUpdates
import SymphonyBoard.Sources.RefreshLoss
import SymphonyBoard.Sources.TokenAccounting
import SymphonyBoard.Sources.TokenPool
import SymphonyBoard.Sources.TokenSelection
import SymphonyBoard.Sources.Types
import SymphonyBoard.Sources.WatermarkOrder
import SymphonyBoard.SyncEngine.Atomic
import SymphonyBoard.SyncEngine.ClosesEdges
import SymphonyBoard.SyncEngine.CommitFiles
import SymphonyBoard.SyncEngine.Controller
import SymphonyBoard.SyncEngine.Coverage
import SymphonyBoard.SyncEngine.EdgeOrder
import SymphonyBoard.SyncEngine.Incremental
import SymphonyBoard.SyncEngine.KeepsFetched
import SymphonyBoard.SyncEngine.MergedWrites
import SymphonyBoard.SyncEngine.Runner
import SymphonyBoard.SyncEngine.SoftDelete
import SymphonyBoard.SyncEngine.Statements
import SymphonyBoard.SyncEngine.Sync
import SymphonyBoard.SyncEngine.Tombstones
import SymphonyBoard.SyncEngine.Writes
import SymphonyBoard.Ui.ActivityTrend
import SymphonyBoard.Ui.Facets
import SymphonyBoard.Ui.GraphComponents
import SymphonyBoard.Ui.GraphPacking
import SymphonyBoard.Ui.HashRoute
import SymphonyBoard.Ui.Heatmap
import SymphonyBoard.Ui.HeatmapsAgree
import SymphonyBoard.Ui.HotPaths
import SymphonyBoard.Ui.RailPanes
import SymphonyBoard.Ui.RailStats
import SymphonyBoard.Ui.Recency
import SymphonyBoard.Ui.VirtualLists
