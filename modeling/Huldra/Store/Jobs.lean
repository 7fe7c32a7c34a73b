import Huldra.Store.Queue

/-!
# Jobs — `sync_jobs`, `sync_job_pages` and `events`

The records a maintenance call keeps of its windows and their pages, and the diagnostic events.
The payload of an event is left out: nothing reads it.
-/

namespace Huldra

inductive LegacySyncMode where
  | slice | completeWindow
  deriving DecidableEq, Repr

/-- The statuses of `sync_jobs` and `sync_job_pages`, and the raw statuses of a maintenance
result. -/
inductive SyncStatus where
  | planned | running | missing | queued | delayed | claimed | completed | failed | rateLimited
  | cacheUnreadable | skipped | partial_ | overflow
  /-- `str(coverage_status)` -/
  | coverage (c : CoverageStatus)
  deriving DecidableEq, Repr

namespace SyncStatus

/-- `str(item.status)` -/
def ofQueue : RequestStatus → SyncStatus
  | .queued => .queued
  | .delayed => .delayed
  | .claimed => .claimed
  | .completed => .completed
  | .failed => .failed

/-- `entry.status` -/
def ofCache : CacheStatus → SyncStatus
  | .completed => .completed
  | .failed => .failed
  | .rateLimited => .rateLimited

/-- `_TERMINAL_SYNC_JOB_STATUSES` -/
def terminal (status : SyncStatus) : Bool :=
  [completed, failed, rateLimited, cacheUnreadable, skipped, partial_, overflow].contains status

/-- `_ASYNC_SYNC_JOB_HANDOFF_STATUSES` -/
def handoff (status : SyncStatus) : Bool :=
  [queued, delayed, claimed].contains status

/-- `_SYNC_JOB_TERMINAL_RAW_STATUSES` -/
def terminalRaw (status : SyncStatus) : Bool :=
  [completed, failed, rateLimited, cacheUnreadable, skipped].contains status

theorem terminal_of_terminalRaw {status : SyncStatus} (h : status.terminalRaw = true) :
    status.terminal = true := by
  cases status <;> simp_all [terminalRaw, terminal]

theorem not_terminal_of_handoff {status : SyncStatus} (h : status.handoff = true) :
    status.terminal = false := by
  cases status <;> simp_all [handoff, terminal]

end SyncStatus

/-- A row of `sync_jobs`. -/
structure SyncJobRow where
  syncJobId : Uuid
  mode : LegacySyncMode
  request : ArxivRequest
  status : SyncStatus := .running
  upstreamBudgetId : Option Uuid
  coverageStatus : CoverageStatus := .unknown
  resultCount : Nat := 0
  totalResults : Option Nat := none
  pagesTotal : Nat := 0
  pagesCompletedTotal : Nat := 0
  errorCategory : Option String := none
  errorMessage : Option String := none
  createdAt : Int
  updatedAt : Int
  completedAt : Option Int := none
  deriving DecidableEq, Repr

/-- `attempt_diagnostics_json`, where it is not empty. -/
structure AttemptDiagnostics where
  upstreamStatus : Option Int
  errorCategory : Option String
  deriving DecidableEq, Repr

/-- A row of `sync_job_pages`. -/
structure SyncJobPageRow where
  syncJobId : Uuid
  cacheKey : CacheKey
  request : ArxivRequest
  start : Nat
  maxResults : Nat
  status : SyncStatus
  resultCount : Nat := 0
  totalResults : Option Nat := none
  attemptDiagnostics : Option AttemptDiagnostics := none
  createdAt : Int
  updatedAt : Int
  deriving DecidableEq, Repr

/-- A row of `events`. -/
structure EventRow where
  eventType : String
  createdAt : Int
  deriving DecidableEq, Repr

/-- The arguments of `record_sync_job_page`. -/
structure SyncJobPageWrite where
  syncJobId : Uuid
  request : ArxivRequest
  cacheKey : CacheKey
  status : SyncStatus
  resultCount : Nat := 0
  totalResults : Option Nat := none
  diagnostics : Option AttemptDiagnostics := none
  deriving DecidableEq, Repr

/-- The arguments of `complete_sync_job`. -/
structure SyncJobCompletion where
  syncJobId : Uuid
  status : SyncStatus
  coverageStatus : CoverageStatus
  resultCount : Nat
  totalResults : Option Nat
  pagesTotal : Nat
  pagesCompletedTotal : Nat
  errorCategory : Option String := none
  errorMessage : Option String := none
  deriving DecidableEq, Repr

structure JobTables where
  syncJobs : List SyncJobRow := []
  syncJobPages : List SyncJobPageRow := []
  deriving DecidableEq

/-- `UPDATE sync_jobs SET … WHERE sync_job_id=?` -/
def SyncJobRow.complete (row : SyncJobRow) (c : SyncJobCompletion) (timestamp : Int) :
    SyncJobRow :=
  { row with
    status := c.status
    coverageStatus := c.coverageStatus
    resultCount := c.resultCount
    totalResults := c.totalResults
    pagesTotal := c.pagesTotal
    pagesCompletedTotal := c.pagesCompletedTotal
    errorCategory := c.errorCategory
    errorMessage := truncateMessage c.errorMessage
    updatedAt := timestamp
    completedAt := some timestamp }

/-- The columns `ON CONFLICT … DO UPDATE` writes; the creation time stays. -/
def SyncJobPageRow.rewrite (row : SyncJobPageRow) (w : SyncJobPageWrite) (timestamp : Int) :
    SyncJobPageRow :=
  { row with
    request := w.request.stored
    start := w.request.start
    maxResults := w.request.maxResults
    status := w.status
    resultCount := w.resultCount
    totalResults := w.totalResults
    attemptDiagnostics := w.diagnostics
    updatedAt := timestamp }

namespace JobTables

def job? (t : JobTables) (syncJobId : Uuid) : Option SyncJobRow :=
  t.syncJobs.find? fun row => row.syncJobId = syncJobId

def createSyncJob (t : JobTables) (fresh : Uuid) (request : ArxivRequest) (mode : LegacySyncMode)
    (upstreamBudgetId : Option Uuid) (timestamp : Int) : JobTables :=
  { t with
    syncJobs := t.syncJobs ++
      [{ syncJobId := fresh
         mode := mode
         request := request.stored
         upstreamBudgetId := upstreamBudgetId
         createdAt := timestamp
         updatedAt := timestamp }] }

/-- A page of a job that does not exist violates the foreign key. -/
def recordSyncJobPage (t : JobTables) (w : SyncJobPageWrite) (timestamp : Int) :
    Except Exn Unit × JobTables :=
  let ofKey (row : SyncJobPageRow) : Bool :=
    row.syncJobId = w.syncJobId && row.cacheKey = w.cacheKey
  if (t.job? w.syncJobId).isNone then (.error .integrityError, t)
  else if t.syncJobPages.any ofKey then
    (.ok (),
      { t with
        syncJobPages := t.syncJobPages.map fun row =>
          if ofKey row then row.rewrite w timestamp else row })
  else
    (.ok (),
      { t with
        syncJobPages := t.syncJobPages ++
          [{ syncJobId := w.syncJobId
             cacheKey := w.cacheKey
             request := w.request.stored
             start := w.request.start
             maxResults := w.request.maxResults
             status := w.status
             resultCount := w.resultCount
             totalResults := w.totalResults
             attemptDiagnostics := w.diagnostics
             createdAt := timestamp
             updatedAt := timestamp }] })

def deleteSyncJobFollowupPages (t : JobTables) (syncJobId : Uuid) (initialCacheKey : CacheKey) :
    JobTables :=
  { t with
    syncJobPages := t.syncJobPages.filter fun row =>
      !(row.syncJobId = syncJobId && row.cacheKey ≠ initialCacheKey) }

def completeSyncJob (t : JobTables) (c : SyncJobCompletion) (timestamp : Int) : JobTables :=
  { t with
    syncJobs := t.syncJobs.map fun row =>
      if row.syncJobId = c.syncJobId then row.complete c timestamp else row }

/-- `DELETE FROM sync_jobs WHERE …`; the pages go with their job. -/
def deleteSyncJobs (t : JobTables) (selected : SyncJobRow → Bool) : JobTables :=
  let deleted := (t.syncJobs.filter selected).map (·.syncJobId)
  { syncJobs := t.syncJobs.filter fun row => !deleted.contains row.syncJobId
    syncJobPages := t.syncJobPages.filter fun page => !deleted.contains page.syncJobId }

end JobTables

end Huldra
