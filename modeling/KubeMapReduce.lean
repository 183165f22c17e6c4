import KubeMapReduce.Lib.Run
import KubeMapReduce.Lib.Table
import KubeMapReduce.Lib.Program
import KubeMapReduce.Lib.Transaction
import KubeMapReduce.Hash
import KubeMapReduce.Schema
import KubeMapReduce.Queries
import KubeMapReduce.Scheduler
import KubeMapReduce.Changes
import KubeMapReduce.Atomic
import KubeMapReduce.Cluster
import KubeMapReduce.Fencing
import KubeMapReduce.Attempts
import KubeMapReduce.Phases
import KubeMapReduce.Terminal
import KubeMapReduce.Sessions
import KubeMapReduce.Quota
import KubeMapReduce.Deadlock
import KubeMapReduce.Lifecycle
import KubeMapReduce.MapTask
import KubeMapReduce.Routing
import KubeMapReduce.Lib.Lines
import KubeMapReduce.Splits
import KubeMapReduce.Coverage
import KubeMapReduce.Retries
import KubeMapReduce.Heartbeats
import KubeMapReduce.Outcomes
import KubeMapReduce.Lib.Frames
import KubeMapReduce.Shuffle
import KubeMapReduce.ReduceTask
import KubeMapReduce.Exchange
import KubeMapReduce.ExactlyOnce
import KubeMapReduce.Delivery
import KubeMapReduce.Outputs
import KubeMapReduce.TaskStream
import KubeMapReduce.Evidence
import KubeMapReduce.Stranded
import KubeMapReduce.Outbox
import KubeMapReduce.Relay
import KubeMapReduce.Closing
import KubeMapReduce.Cleanup
import KubeMapReduce.Agreement
import KubeMapReduce.Failures
import KubeMapReduce.Finished
import KubeMapReduce.JobOutputs
import KubeMapReduce.EventLog
import KubeMapReduce.Manifest
import KubeMapReduce.Lib.Client
import KubeMapReduce.Submission
import KubeMapReduce.Admission
import KubeMapReduce.Promotion
import KubeMapReduce.Pools
import KubeMapReduce.Lib.Paths
import KubeMapReduce.Isolation
import KubeMapReduce.Accounting
import KubeMapReduce.Framing
import KubeMapReduce.MapInput
import KubeMapReduce.Lib.Heap
import KubeMapReduce.Lib.Merge
import KubeMapReduce.Records
import KubeMapReduce.ExternalMerge
import KubeMapReduce.MergeCosts
import KubeMapReduce.SpillingSorter
import KubeMapReduce.MapOutput
import KubeMapReduce.ExecuteTask
import KubeMapReduce.SplitChecksums
import KubeMapReduce.Reaper
import KubeMapReduce.ScheduleRequest
import KubeMapReduce.Staging
import KubeMapReduce.SystemConfig
import KubeMapReduce.WorkerService
import KubeMapReduce.Buckets
import KubeMapReduce.AdminToken
import KubeMapReduce.JobListing
import KubeMapReduce.Lib.TokenBucket
import KubeMapReduce.RateLimit
import KubeMapReduce.UploadKeys
import KubeMapReduce.HeartbeatMap
import KubeMapReduce.Lib.Exits
import KubeMapReduce.MergePipes
import KubeMapReduce.TempFiles
import KubeMapReduce.MapExits
import KubeMapReduce.CombinerPipe
import KubeMapReduce.Lib.Grouping
import KubeMapReduce.ReduceInput
import KubeMapReduce.WholeJob
import KubeMapReduce.Computation
import KubeMapReduce.Access
import KubeMapReduce.Orchestrator
