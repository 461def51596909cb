import Kubert.Foundation.LabelledRun
import Kubert.Foundation.Transducer
import Kubert.Foundation.Poll
import Kubert.Foundation.KeyedStore
import Kubert.Foundation.Matching
import Kubert.Foundation.VersionedRegister
import Kubert.Foundation.StableSort
import Kubert.Foundation.PrefixCode
import Kubert.Foundation.Population
import Kubert.Lease.Clock
import Kubert.Lease.Resource
import Kubert.Lease.Manager
import Kubert.Lease.Execution
import Kubert.Lease.System
import Kubert.Lease.Knowledge
import Kubert.Lease.Holder
import Kubert.Lease.Takeover
import Kubert.Lease.MutualExclusion
import Kubert.Lease.Transitions
import Kubert.Lease.Spawn
import Kubert.Lease.Settled
import Kubert.Lease.Relinquish
import Kubert.Lease.Failures
import Kubert.Lease.Publication
import Kubert.Lease.Retries
import Kubert.Lease.Renewal
import Kubert.Lease.Backoff
import Kubert.Lease.Diagnostics
import Kubert.Lease.Overflow
import Kubert.Index.Contents
import Kubert.Index.Tracker
import Kubert.Index.Flatten
import Kubert.Index.Mirror
import Kubert.Index.Abandoned
import Kubert.Index.Restarts
import Kubert.Index.Naming
import Kubert.Requeue.DelayQueue
import Kubert.Requeue.Channel
import Kubert.Requeue.Deadlines
import Kubert.Requeue.Containers
import Kubert.Requeue.Delivery
import Kubert.Stream.Adapters
import Kubert.Stream.Watch
import Kubert.Stream.Delays
import Kubert.Diagnostics.Watch
import Kubert.Diagnostics.Snapshot
import Kubert.Diagnostics.Checksum
import Kubert.Runtime.Semaphore
import Kubert.Runtime.Initialized
import Kubert.Runtime.Readiness
import Kubert.Admin.Routes
import Kubert.Metrics.Tokio
import Kubert.Server.Connections
import Kubert.Server.Drain
import Kubert.Server.Retention
import Kubert.Runtime.Shutdown
import Kubert.Runtime.Run
import Kubert.Foundation.WeakRegistry
import Kubert.Diagnostics.Registry
import Kubert.Stream.Taps
import Kubert.Metrics.Watch
import Kubert.Runtime.Watches
import Kubert.Runtime.Indices
import Kubert.Requeue.Shutdown
import Kubert.Lease.Linearization
import Kubert.WatchPods.Gauge
import Kubert.Runtime.Probes
import Kubert.Lease.Election
import Kubert.Lease.Vacancy
import Kubert.Lease.Succession
import Kubert.Server.Credentials
