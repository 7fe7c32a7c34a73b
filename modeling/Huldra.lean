import Huldra.Upstream.SingleFetch
import Huldra.Queue.Isolation
import Huldra.Worker.Leftovers
import Huldra.Queue.HardCap
import Huldra.Queue.Finished
import Huldra.Maintenance.Tiling
import Huldra.Harvest.Chain
import Huldra.Harvest.Resumed
import Huldra.Harvest.Stale
import Huldra.Harvest.Continued
import Huldra.Harvest.Overlap
import Huldra.Queue.Waiters
import Huldra.Upstream.Cooldown
import Huldra.Upstream.Spacing
import Huldra.Requests
import Huldra.Library.Snapshot
import Huldra.Library.Composition
import Huldra.Library.Tombstones
import Huldra.Library.IdListPaths
import Huldra.Library.RefreshPeriods
import Huldra.Broker.Waiting
import Huldra.Broker.Maturity
import Huldra.Harvest.Bounds
import Huldra.Maintenance.Closing
import Huldra.Migrations
import Huldra.Retention.InUse
import Huldra.Harvest.Watermarks
import Huldra.Upstream.RetryAfter
import Huldra.Keys.Wrappers
import Huldra.Planner
import Huldra.Library.Replay
import Huldra.Library.Shown
import Huldra.Maintenance.Coverage
import Huldra.OaiPmh
import Huldra.Worker.Deadlines
import Huldra.Time.RoundTrip
import Huldra.Atom.Fetcher
import Huldra.Accounts.Balance
import Huldra.Worker.Report
