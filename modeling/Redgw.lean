import Redgw.Lib.Prog
import Redgw.Lib.Noninterference
import Redgw.Lib.Fallible
import Redgw.Lib.Glob
import Redgw.Lib.Text
import Redgw.Keys
import Redgw.Redis.Reference
import Redgw.Schemas
import Redgw.Route
import Redgw.Footprint
import Redgw.Routers.Kv
import Redgw.Routers.Map
import Redgw.Routers.Queue
import Redgw.Routers.Group
import Redgw.Routers.Rank
import Redgw.Routers.Event
import Redgw.Routers.Pubsub
import Redgw.Audit.Middleware
import Redgw.Metrics
import Redgw.MetricsMiddleware
import Redgw.Api
import Redgw.Theorems.Serving
import Redgw.Theorems.Isolation
import Redgw.Theorems.ReadOnly
import Redgw.Theorems.Capture
import Redgw.Theorems.Unaudited
import Redgw.Stack
import Redgw.Theorems.RequestMetrics
import Redgw.Lib.Exposition
import Redgw.MetricsPage
import Redgw.Theorems.MetricsText
import Redgw.Theorems.MetricsLabels
import Redgw.Theorems.Scrape
import Redgw.Audit.Logger
import Redgw.Theorems.AuditShutdown
import Redgw.Routers.Admin
import Redgw.Theorems.KeyPatterns
import Redgw.Theorems.KeySelection
import Redgw.Lib.Pool
import Redgw.Redis.Kinds
import Redgw.Sends
import Redgw.System
import Redgw.Redis.Typing
import Redgw.Theorems.Jobs
import Redgw.Theorems.StoreInvariants
import Redgw.Theorems.OutOfReach
import Redgw.Redis.Lifetimes
import Redgw.Redis.Lists
import Redgw.Lib.Deque
import Redgw.Theorems.QueueLedger
import Redgw.Theorems.Queues
import Redgw.Theorems.Executions
import Redgw.Theorems.Touch
import Redgw.Redis.Writes
import Redgw.Plans
import Redgw.Theorems.TtlReports
import Redgw.Theorems.PlanRuns
import Redgw.Theorems.MetaTtl
import Redgw.Theorems.Acknowledged
import Redgw.Auth
import Redgw.Theorems.Identity
import Redgw.Theorems.Engines
import Redgw.Theorems.AuditStatus
import Redgw.Redis.Scores
import Redgw.Theorems.FiniteScores
import Redgw.Theorems.RestingMetrics
import Redgw.StartupLock
import Redgw.Theorems.OneLogger
import Redgw.Theorems.Subscriptions
import Redgw.JsonObject
import Redgw.Theorems.Origins
import Redgw.Theorems.Integers
import Redgw.Theorems.PendingEvents
import Redgw.Audit.Receive
import Redgw.Theorems.BodyCapture
import Redgw.Theorems.RequestIds
import Redgw.Theorems.ClientCounts
import Redgw.Lib.Percent
import Redgw.Theorems.Addresses
import Redgw.FileLogger.Compress
import Redgw.Theorems.Compression
import Redgw.FileLogger.Handler
import Redgw.Theorems.ByteCounter
import Redgw.Theorems.CrashRotation
import Redgw.Theorems.RotationFrame
import Redgw.FileLogger.Cleanup
import Redgw.Theorems.DirectoryCap
import Redgw.Theorems.TornSnapshots
import Redgw.Theorems.RotationOrder
import Redgw.FileLogger.SizeCap
import Redgw.Theorems.SizeCap
import Redgw.Redis.Streams
import Redgw.Theorems.StreamIds
import Redgw.Theorems.KeyCodec
import Redgw.Lib.Tally
import Redgw.Theorems.KeyStats
import Redgw.Theorems.BulkDeletion
import Redgw.Lib.Cursor
import Redgw.Theorems.Paging
import Redgw.FileLogger.Compressions
import Redgw.Theorems.PendingCompressions
import Redgw.Theorems.BatchAcceptance
import Redgw.Redis.Refusals
import Redgw.Theorems.WrittenTtl
import Redgw.Theorems.RefusedTtl
import Redgw.Theorems.UniformTtl
import Redgw.FileLogger.Workers
import Redgw.Theorems.WorkerLogs
import Redgw.Lib.Linear
import Redgw.Theorems.Linearizable
import Redgw.Lib.Lease
import Redgw.Theorems.StatusLeader
import Redgw.Theorems.IncrementTotals
import Redgw.Delivery
import Redgw.Theorems.Publishing
import Redgw.Theorems.Deliveries
import Redgw.Redis.Groups
import Redgw.Theorems.GroupDelivery
import Redgw.Redis.SortedSets
import Redgw.Theorems.BatchRefinement
import Redgw.Lib.Register
import Redgw.Theorems.KvRegister
import Redgw.Lib.Purge
import Redgw.Theorems.ParallelIsolation
import Redgw.Theorems.Authority
