import BetterMQ.Catalog.Sync
import BetterMQ.Controller.Drain
import BetterMQ.Controller.Election
import BetterMQ.Controller.Fanout
import BetterMQ.Controller.Nodes
import BetterMQ.Controller.Placement
import BetterMQ.Controller.Replicated
import BetterMQ.Dispatch.Egress
import BetterMQ.Dispatch.FlowLocks
import BetterMQ.Dispatch.Pause
import BetterMQ.Dispatch.Rate
import BetterMQ.Dispatch.Retry
import BetterMQ.Dispatch.Stores
import BetterMQ.Ingest.Limiter
import BetterMQ.Ingest.Ndjson
import BetterMQ.Partition.BatchOutcome
import BetterMQ.Partition.Deadlock
import BetterMQ.Partition.GroupCommit
import BetterMQ.Partition.Isolation
import BetterMQ.Partition.Paging
import BetterMQ.Proto.RoundTrip
import BetterMQ.Replication.CatchUp
import BetterMQ.Replication.Failover
import BetterMQ.Replication.Fence
import BetterMQ.Schedule.Delay
import BetterMQ.Schedule.Delayed
import BetterMQ.Schedule.Fire
import BetterMQ.Storage.Archive
import BetterMQ.Storage.Backend
import BetterMQ.Storage.CollectFailure
import BetterMQ.Storage.Migration
import BetterMQ.Storage.RawFrames
import BetterMQ.Storage.Reuse
