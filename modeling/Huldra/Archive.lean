import Huldra.Calls
import Huldra.Store.Jobs
import Mathlib.Algebra.Order.Ring.Nat

/-!
# Archive — the store with its job tables, its events and its garbage collection

What the maintenance calls and the operators add to the database: the records of the windows, the
diagnostic events, and `gc`.  A program over the store runs here unchanged; `embed` is the
inclusion.
-/

namespace Huldra

open Process (Prog)

/-- The database. -/
structure Archive where
  store : Store := {}
  jobs : JobTables := {}
  events : List EventRow := []

/-- `RetentionGCResult` -/
structure RetentionGCResult where
  cutoff : Int
  dryRun : Bool
  eventsEligibleTotal : Nat
  queueItemsEligibleTotal : Nat
  syncJobsEligibleTotal : Nat
  syncJobPagesEligibleTotal : Nat
  eligibleTotal : Nat
  eventsDeletedTotal : Nat
  queueItemsDeletedTotal : Nat
  syncJobsDeletedTotal : Nat
  syncJobPagesDeletedTotal : Nat
  deletedTotal : Nat
  deriving DecidableEq, Repr

/-- The four counts of a collection. -/
structure RetentionCounts where
  events : Nat := 0
  queueItems : Nat := 0
  syncJobs : Nat := 0
  syncJobPages : Nat := 0
  deriving DecidableEq, Repr

def RetentionCounts.total (counts : RetentionCounts) : Nat :=
  counts.events + counts.queueItems + counts.syncJobs + counts.syncJobPages

/-- `_retention_result` -/
def retentionResult (cutoff : Int) (dryRun : Bool) (eligible deleted : RetentionCounts) :
    RetentionGCResult :=
  { cutoff := cutoff
    dryRun := dryRun
    eventsEligibleTotal := eligible.events
    queueItemsEligibleTotal := eligible.queueItems
    syncJobsEligibleTotal := eligible.syncJobs
    syncJobPagesEligibleTotal := eligible.syncJobPages
    eligibleTotal := eligible.total
    eventsDeletedTotal := deleted.events
    queueItemsDeletedTotal := deleted.queueItems
    syncJobsDeletedTotal := deleted.syncJobs
    syncJobPagesDeletedTotal := deleted.syncJobPages
    deletedTotal := deleted.total }

namespace Archive

/-! ## Retention -/

/-- When a cache entry ended, as the filter reads it: `CASE status … END`. -/
def cacheEndedAt (entry : CacheEntry) : Option Int :=
  match entry.status with
  | .completed => entry.completedAt
  | .failed => some entry.requestedAt
  | .rateLimited => none

/-- When a queue item ended, as the filter reads it. -/
def queueEndedAt (row : QueueRow) : Option Int :=
  match row.status with
  | .completed => row.completedAt
  | .failed => some row.updatedAt
  | .queued | .delayed | .claimed => none

/-- `status NOT IN ('completed', 'failed') OR COALESCE(… >= ?, 1)` -/
def cacheNonExpired (entry : CacheEntry) (cutoff : Int) : Bool :=
  !(entry.status = .completed || entry.status = .failed) ||
    (cacheEndedAt entry).all fun endedAt => cutoff ≤ endedAt

/-- `status IN ('completed', 'failed') AND … < ?` -/
def cacheExpired (entry : CacheEntry) (cutoff : Int) : Bool :=
  (entry.status = .completed || entry.status = .failed) &&
    (cacheEndedAt entry).any fun endedAt => endedAt < cutoff

def queueNonExpired (row : QueueRow) (cutoff : Int) : Bool :=
  !(row.status = .completed || row.status = .failed) ||
    (queueEndedAt row).all fun endedAt => cutoff ≤ endedAt

def queueExpired (row : QueueRow) (cutoff : Int) : Bool :=
  (row.status = .completed || row.status = .failed) &&
    (queueEndedAt row).any fun endedAt => endedAt < cutoff

/-- A page whose work has not ended before the cutoff, or of which nothing is recorded. -/
def pageUnsettled (a : Archive) (cutoff : Int) (page : SyncJobPageRow) : Bool :=
  let entries := a.store.library.cacheEntries.filter fun e => e.cacheKey = page.cacheKey
  let items := a.store.queue.items.filter fun row => row.cacheKey = page.cacheKey
  (entries.any fun e => cacheNonExpired e cutoff) ||
    (items.any fun row => queueNonExpired row cutoff) ||
    (!(entries.any fun e => cacheExpired e cutoff) &&
      !(items.any fun row => queueExpired row cutoff))

/-- `_RETENTION_SYNC_JOB_FILTER` -/
def retentionSyncJobFilter (a : Archive) (cutoff : Int) (job : SyncJobRow) : Bool :=
  (job.completedAt.any fun completedAt => completedAt < cutoff) &&
    (job.status.terminal ||
      (job.status.handoff &&
        (a.jobs.syncJobPages.any fun page => page.syncJobId = job.syncJobId) &&
        !(a.jobs.syncJobPages.any fun page =>
          page.syncJobId = job.syncJobId && a.pageUnsettled cutoff page)))

/-- `_retention_eligible_counts`: a page is counted once for each selected job it joins. -/
def retentionEligibleCounts (a : Archive) (cutoff : Int) : RetentionCounts :=
  let eligibleSyncJobs := a.jobs.syncJobs.filter (a.retentionSyncJobFilter cutoff)
  { events := a.events.countP fun event => event.createdAt < cutoff
    queueItems := a.store.queue.items.countP fun row => QueueTables.collectable row cutoff
    syncJobs := eligibleSyncJobs.length
    syncJobPages :=
      (a.jobs.syncJobPages.map fun page =>
        eligibleSyncJobs.countP fun job => job.syncJobId = page.syncJobId).sum }

/-- The deletions of `gc`, one after the other, and what each of them counts. -/
def collect (a : Archive) (cutoff : Int) : RetentionCounts × Archive :=
  let counts := a.retentionEligibleCounts cutoff
  let events := a.events.filter fun event => !(event.createdAt < cutoff)
  let eventsDeleted := a.events.length - events.length
  let a := { a with events := events }
  let jobs := a.jobs.deleteSyncJobs (a.retentionSyncJobFilter cutoff)
  let syncJobsDeleted := a.jobs.syncJobs.length - jobs.syncJobs.length
  let a := { a with jobs := jobs }
  let store := a.store.gc cutoff (jobs.syncJobs.filterMap (·.upstreamBudgetId))
  let queueItemsDeleted := a.store.queue.items.length - store.queue.items.length
  ({ events := eventsDeleted
     queueItems := queueItemsDeleted
     syncJobs := syncJobsDeleted
     syncJobPages := counts.syncJobPages },
    { a with store := store })

/-- `gc` -/
def gc (a : Archive) (cutoff : Int) (dryRun : Bool) : RetentionGCResult × Archive :=
  let counts := a.retentionEligibleCounts cutoff
  if dryRun then (retentionResult cutoff true counts {}, a)
  else
    let out := a.collect cutoff
    (retentionResult cutoff false counts out.1, out.2)

end Archive

/-! ## Operations -/

/-- The transactions on the job tables, and the collection. -/
inductive JobOp where
  | createSyncJob (request : ArxivRequest) (mode : LegacySyncMode) (upstreamBudgetId : Option Uuid)
      (timestamp : Int)
  | recordSyncJobPage (write : SyncJobPageWrite) (timestamp : Int)
  | deleteSyncJobFollowupPages (syncJobId : Uuid) (initialCacheKey : CacheKey)
  | completeSyncJob (completion : SyncJobCompletion) (timestamp : Int)
  | getUpstreamRequestBudgetRequestsStarted (budgetId : Uuid)
  | gc (cutoff : Int) (dryRun : Bool)
  deriving DecidableEq

inductive ArchiveOp where
  | store (o : Op)
  | job (o : JobOp)
  deriving DecidableEq

@[reducible] def JobOp.Res : JobOp → Type
  | .createSyncJob .. => Uuid
  | .recordSyncJobPage .. | .deleteSyncJobFollowupPages .. | .completeSyncJob .. => Unit
  | .getUpstreamRequestBudgetRequestsStarted _ => Option Nat
  | .gc .. => RetentionGCResult

@[reducible] def ArchiveOp.Res : ArchiveOp → Type
  | .store o => o.Res
  | .job o => o.Res

abbrev archive : Process.Interface :=
  { Op := ArchiveOp, Res := ArchiveOp.Res, Exn := Exn }

/-! ## Events -/

def DiagnosticEvent.eventType : DiagnosticEvent → String
  | .upstreamRequestStarted .. => "upstream_request_started"
  | .upstreamRequestFinished .. => "upstream_request_finished"
  | .cacheIntegrityFailure .. => "cache_integrity_failure"

/-- The `_record_event_conn` calls of one transaction.  The budgets that are charged have passed
their checks, so only those detached before are reported as exhausted. -/
def Op.recordedEvents (o : Op) (now : Int) (before after : Store) : List String :=
  let enqueued := if before.queue.items.length < after.queue.items.length then
    ["request_enqueued"] else []
  match o with
  | .rate (.recordEvent event) => [event.eventType]
  | .library (.recordCompletedCacheEntry _) => ["fetch_success"]
  | .library (.recordCacheFailure write) =>
      [if write.upstreamStatus = some 429 then "fetch_429" else "fetch_failure"]
  | .queue (.enqueueRequestForWork ..) => enqueued
  | .enqueueRefreshIfDue .. => enqueued
  | .queue (.createUpstreamRequestBudget ..) => ["upstream_budget_created"]
  | .queue (.reserveQueueItemUpstreamRequest requestId) =>
      let q := before.queue
      (q.invalidForReservation (q.budgetAttemptState requestId) now).map
        fun _ => "upstream_budget_exhausted"
  | .queue (.checkQueueItemUpstreamRequestDeadlines requestId) =>
      let q := before.queue
      let state := q.budgetAttemptState requestId
      (q.upstreamBudgetErrors (state.activeBudgetIds ++ state.futureBudgetIds) now false).map
        fun _ => "upstream_budget_exhausted"
  | .queue (.failActiveUpstreamBudgetItems budgetId ..) =>
      if before.queue.items.any (before.queue.boundToBudget budgetId) then
        ["upstream_budget_queue_reconciled"] else []
  | .oai (.createOaiHarvestJob ..) => ["oai_harvest_started"]
  | .oai (.completeOaiHarvestJob _) => ["oai_harvest_completed"]
  | _ => []

def JobOp.recordedEvents : JobOp → List String
  | .createSyncJob .. => ["sync_job_started"]
  | .completeSyncJob .. => ["sync_job_completed"]
  | _ => []

/-! ## Execution -/

namespace Archive

def record (a : Archive) (eventTypes : List String) (now : Int) : Archive :=
  { a with events := a.events ++ eventTypes.map fun eventType => ⟨eventType, now⟩ }

/-- What `o` does apart from its event. -/
def execJob (o : JobOp) (a : Archive) : Except Exn o.Res × Archive :=
  match o with
  | .createSyncJob request mode budgetId timestamp =>
      (.ok a.store.nextUuid,
        { a with
          store := { a.store with nextUuid := a.store.nextUuid + 1 }
          jobs := a.jobs.createSyncJob a.store.nextUuid request mode budgetId timestamp })
  | .recordSyncJobPage write timestamp =>
      let out := a.jobs.recordSyncJobPage write timestamp
      (out.1, { a with jobs := out.2 })
  | .deleteSyncJobFollowupPages syncJobId initialCacheKey =>
      (.ok (), { a with jobs := a.jobs.deleteSyncJobFollowupPages syncJobId initialCacheKey })
  | .completeSyncJob completion timestamp =>
      (.ok (), { a with jobs := a.jobs.completeSyncJob completion timestamp })
  | .getUpstreamRequestBudgetRequestsStarted budgetId =>
      (.ok ((a.store.queue.budget? budgetId).map (·.requestsStarted)), a)
  | .gc cutoff dryRun =>
      let out := a.gc cutoff dryRun
      (.ok out.1, out.2)

/-- Run one operation at time `now`. -/
def exec (o : ArchiveOp) (now : Int) (input : Input) (a : Archive) : Except Exn o.Res × Archive :=
  match o with
  | .store o =>
      let out := Store.exec o now input a.store
      (out.1, { a with store := out.2 }.record (o.recordedEvents now a.store out.2) now)
  | .job o =>
      let out := a.execJob o
      (out.1, out.2.record o.recordedEvents now)

def ready (o : ArchiveOp) (now : Int) : Bool :=
  match o with
  | .store o => Store.ready o now
  | .job _ => true

/-- What one operation can do: answer as `exec` says, or raise a fault with or without effect. -/
def Performed (o : ArchiveOp) (t : Int) (r : Except Exn o.Res) (a a' : Archive) : Prop :=
  (∃ input, ready o t = true ∧ exec o t input a = (r, a')) ∨
    (∃ e, Store.fault e = true ∧ r = .error e ∧ (a' = a ∨ ∃ input, a' = (exec o t input a).2))

namespace Performed

variable {o : ArchiveOp} {t : Int} {r : Except Exn o.Res} {a a' : Archive}

/-- Whatever was answered, the state is the old one or the one the operation leads to. -/
theorem state (h : Performed o t r a a') : a' = a ∨ ∃ input, a' = (exec o t input a).2 := by
  rcases h with ⟨input, _, hexec⟩ | ⟨e, _, _, hstate⟩
  · exact Or.inr ⟨input, by simp [hexec]⟩
  · exact hstate

/-- A result, as opposed to an exception, is the one the operation computes. -/
theorem of_ok {b : o.Res} (h : Performed o t (.ok b) a a') :
    ∃ input, ready o t = true ∧ exec o t input a = (.ok b, a') := by
  rcases h with h | ⟨e, _, hr, _⟩
  · exact h
  · cases hr

end Performed

end Archive

abbrev ArchiveProgram := Prog archive

/-- A program over the store, run on the archive. -/
def embed {α : Type} : Program α → ArchiveProgram α
  | .ret a => .ret a
  | .raise e => .raise e
  | .op o k => .op (.store o) fun r => embed (k r)

/-- Ask for one operation on the job tables. -/
def performJob (o : JobOp) : ArchiveProgram o.Res :=
  @Prog.call archive (.job o)

/-- The system of all clients with these programs over one archive. -/
def archiveSystem (Client Out : Type) (program : Client → Nat → ArchiveProgram Out) :
    Process.System archive where
  State := Archive
  Input := Input
  Client := Client
  Out := Out
  init := {}
  exec := Archive.exec
  ready := Archive.ready
  faults := Store.fault
  program := program

end Huldra
