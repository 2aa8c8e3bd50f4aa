import Rq.Basic
import Rq.Queue
import Rq.Dequeue
import Rq.Maintenance
import Rq.Failed
import Rq.Enqueue
import Rq.ChildQueue
import Rq.Ops
import Rq.DequeueAny
import Rq.Dependency
import Rq.Registry
import Rq.Reachable
import Rq.RoundTrip
import Rq.Interleave
import Rq.Race.Dependency
import Rq.Race.Compact
import Rq.Race.Release
import Rq.Race.Requeue
import Rq.Race.Empty
import Rq.Race.Wip
import Rq.Race.Fifo
import Rq.Race.Serial
