import TaskTipsCloud.Library.Paging
import TaskTipsCloud.Appends
import TaskTipsCloud.Service
import TaskTipsCloud.Frames
import TaskTipsCloud.Writers
import TaskTipsCloud.Coherence
import TaskTipsCloud.Events
import TaskTipsCloud.Fencing
import TaskTipsCloud.RestoreTarget
import TaskTipsCloud.Restoration
import TaskTipsCloud.SnapshotRestore
import TaskTipsCloud.JobSteps
import TaskTipsCloud.RestoreRuns
import TaskTipsCloud.Maintenance
import TaskTipsCloud.Leases
import TaskTipsCloud.Auth
import TaskTipsCloud.Cancellation
import TaskTipsCloud.AuthSteps
import TaskTipsCloud.Families
import TaskTipsCloud.Library.Schedules
import TaskTipsCloud.AuthRuns
import TaskTipsCloud.Library.Traces
import TaskTipsCloud.Revocation
import TaskTipsCloud.Library.Serial
import TaskTipsCloud.Purges
import TaskTipsCloud.AccountPurges
import TaskTipsCloud.PurgeSteps
import TaskTipsCloud.Deletion
import TaskTipsCloud.Resumption
import TaskTipsCloud.SnapshotSteps
import TaskTipsCloud.PurgeJobs
import TaskTipsCloud.Attribution
import TaskTipsCloud.Attempts
import TaskTipsCloud.FamilyCap
import TaskTipsCloud.Invitations
import TaskTipsCloud.Activation
import TaskTipsCloud.Nonces
import TaskTipsCloud.NonceRuns
import TaskTipsCloud.UploadSteps
import TaskTipsCloud.UploadRuns
import TaskTipsCloud.Bindings
import TaskTipsCloud.PushTotal
import TaskTipsCloud.Encoders
import TaskTipsCloud.Timestamps
import TaskTipsCloud.HistoryWalk
import TaskTipsCloud.Differences
import TaskTipsCloud.Library.Selections
import TaskTipsCloud.Library.Windows
import TaskTipsCloud.RateLimits
import TaskTipsCloud.AuditRetention
import TaskTipsCloud.Library.Sql
import TaskTipsCloud.Expiry
import TaskTipsCloud.Library.Programs
import TaskTipsCloud.PayloadLocks
import TaskTipsCloud.Cleanup
import TaskTipsCloud.LockSessions
import TaskTipsCloud.CleanupRuns
import TaskTipsCloud.PayloadCollection
import TaskTipsCloud.Baselining
import TaskTipsCloud.Exports
import TaskTipsCloud.ExportRuns
import TaskTipsCloud.Library.Like
import TaskTipsCloud.Search
import TaskTipsCloud.AuditCsv
import TaskTipsCloud.AuthLimiter
import TaskTipsCloud.ObjectKeys
import TaskTipsCloud.Cursors
import TaskTipsCloud.CursorRuns
import TaskTipsCloud.Library.Calendar
import TaskTipsCloud.Library.DateTimeText
import TaskTipsCloud.StoredResponses
import TaskTipsCloud.PayloadStreams
import TaskTipsCloud.Manifests
import TaskTipsCloud.ManifestRuns
import TaskTipsCloud.Batches
import TaskTipsCloud.Library.Raises
import TaskTipsCloud.Library.Replicas
import TaskTipsCloud.Replays
import TaskTipsCloud.Convergence
import TaskTipsCloud.Library.Reservations
import TaskTipsCloud.UploadBudgets
import TaskTipsCloud.Library.Triples
import TaskTipsCloud.Restorability
import TaskTipsCloud.PurgeCompleteness
