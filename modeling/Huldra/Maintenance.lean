import Huldra.Archive
import Huldra.Broker

/-!
# Maintenance — `sync_windows`: a list of windows brought into the cache

The call plans its windows, opens a budget and a job for each of them, queues what is missing, and
possibly waits with workers of its own.  In the mode `slice` a window is its first page; in the
mode `complete_window` the pages that follow are planned, queued and drained as well, and the job
says whether they cover the window.  `time.monotonic()` is the clock here.
-/

namespace Huldra

open Process (Prog)

/-! ## The values of a call -/

/-- The arguments of `sync_windows`. -/
structure SyncWindowsCall where
  requests : List ArxivRequest
  wait : Bool := false
  waitTimeoutSeconds : Option Timeout := none
  mode : LegacySyncMode := .slice
  maxPagesPerWindow : Nat := 100
  maxRequestsTotal : Nat := 500
  deriving DecidableEq, Repr

/-- `_MaintenanceTarget` -/
structure MaintenanceTarget where
  request : ArxivRequest
  cacheKey : CacheKey
  syncJobId : Uuid
  requestId : Option Uuid := none
  joinedExistingQueue : Bool := false
  initialCacheHit : Bool := false
  coverageStatus : CoverageStatus := .unknown
  resultCount : Nat := 0
  totalResults : Option Nat := none
  pagesTotal : Nat := 0
  pagesCompletedTotal : Nat := 0
  aggregateRawStatus : Option SyncStatus := none
  aggregateErrorCategory : Option String := none
  aggregateErrorMessage : Option String := none
  deriving DecidableEq, Repr

/-- `_MaintenanceBudget` -/
structure MaintenanceBudget where
  upstreamBudgetId : Uuid
  maxPagesPerWindow : Nat
  maxRequestsTotal : Nat
  deadline : Int
  deadlineAt : Int
  reservedRequests : Nat := 0
  deriving DecidableEq, Repr

/-- The status of what is served for a window: that of the result, or the raw status. -/
inductive ServingStatus where
  | served (status : String)
  | raw (status : SyncStatus)
  deriving DecidableEq, Repr

/-- `HuldraMaintenanceRequestResult` -/
structure MaintenanceRequestResult where
  syncJobId : Uuid
  cacheKey : CacheKey
  requestId : Option Uuid
  searchQuery : Option String
  submittedStart : Option Int
  submittedEnd : Option Int
  rawCacheStatus : SyncStatus
  servingStatus : ServingStatus
  coverageStatus : CoverageStatus
  cacheHit : Bool
  joinedExistingQueue : Bool
  upstreamStatus : Option Int
  cooldownUntil : Option Int
  errorCategory : Option String
  errorMessage : Option String
  papersTotal : Nat
  resultCount : Nat
  totalResults : Option Nat
  pagesTotal : Nat
  pagesCompletedTotal : Nat
  deriving DecidableEq, Repr

/-- `HuldraMaintenanceResult` -/
structure MaintenanceResult where
  requestedTotal : Nat := 0
  queuedTotal : Nat := 0
  cacheMissTotal : Nat := 0
  cacheHitTotal : Nat := 0
  completedWindowsTotal : Nat := 0
  completedSlicesTotal : Nat := 0
  completeWindowsTotal : Nat := 0
  partialWindowsTotal : Nat := 0
  overflowWindowsTotal : Nat := 0
  upstreamRequestsTotal : Nat := 0
  upstream429Total : Nat := 0
  retryAfterSeconds : Option Int := none
  cooldownActiveTotal : Nat := 0
  skippedWindowsTotal : Nat := 0
  rateLimitedWindowsTotal : Nat := 0
  failedWindowsTotal : Nat := 0
  budgetExhaustedWindowsTotal : Nat := 0
  papersTotal : Nat := 0
  cooldownActive : Bool := false
  cooldownUntil : Option Int := none
  requests : List MaintenanceRequestResult := []
  deriving DecidableEq, Repr

/-! ## The methods of the store -/

def createSyncJob (request : ArxivRequest) (mode : LegacySyncMode)
    (upstreamBudgetId : Option Uuid) : ArchiveProgram Uuid := do
  let timestamp ← embed utcNow
  performJob (.createSyncJob request mode upstreamBudgetId timestamp)

def recordSyncJobPage (write : SyncJobPageWrite) : ArchiveProgram Unit := do
  let timestamp ← embed utcNow
  performJob (.recordSyncJobPage write timestamp)

def deleteSyncJobFollowupPages (syncJobId : Uuid) (initialCacheKey : CacheKey) :
    ArchiveProgram Unit :=
  performJob (.deleteSyncJobFollowupPages syncJobId initialCacheKey)

def completeSyncJob (completion : SyncJobCompletion) : ArchiveProgram Unit := do
  let timestamp ← embed utcNow
  performJob (.completeSyncJob completion timestamp)

def getUpstreamRequestBudgetRequestsStarted (budgetId : Uuid) : ArchiveProgram (Option Nat) :=
  performJob (.getUpstreamRequestBudgetRequestsStarted budgetId)

/-- `refresh_sync_job_page_from_cache`, and the error category it answers with. -/
def refreshSyncJobPageFromCache (syncJobId : Uuid) (request : ArxivRequest)
    (cacheKey : CacheKey) : ArchiveProgram (Option String) := do
  let entry ← embed (getCacheEntry cacheKey)
  recordSyncJobPage
    { syncJobId := syncJobId
      request := request
      cacheKey := cacheKey
      status := (entry.map fun e => SyncStatus.ofCache e.status).getD .missing
      resultCount := (entry.map (·.resultCount)).getD 0
      totalResults := entry.bind (·.totalResults)
      diagnostics := entry.map fun e => ⟨e.upstreamStatus, e.errorCategory⟩ }
  pure (entry.bind (·.errorCategory))

namespace Maintenance

/-! ## Local helpers -/

/-- `_maintenance_timeout_seconds` -/
def maintenanceTimeoutSeconds (requests : List ArxivRequest) (settings : HuldraSettings)
    (waitTimeoutSeconds : Option Timeout) : Timeout :=
  match waitTimeoutSeconds with
  | some timeout => timeout
  | none =>
      match requests.filterMap (·.timeoutSeconds) with
      | first :: rest => rest.foldl max first
      | [] => settings.requestTimeoutSeconds

/-- `_deadline_can_fit_requests`, with the reading of the limiter it is called with. -/
def deadlineCanFitRequests (d : Deployment) (deadline : Int) (requestsTotal : Nat) :
    ArchiveProgram Bool := do
  let current ← embed utcNow
  let state ← embed (getRateState Limiter.name)
  let initialWait := Limiter.secondsUntilNextRequest d.settings state current
  let now ← embed utcNow
  let minimumSeconds :=
    max 0 initialWait + ((requestsTotal - 1 : Nat) : Int) * d.settings.requestIntervalSeconds
  pure (decide (now + minimumSeconds ≤ deadline))

/-- `_raw_status_from_queue_item` -/
def rawStatusFromQueueItem (item : QueueItem) : SyncStatus :=
  if item.status = .delayed ∧ item.errorCategory = some "cooldown" then .skipped
  else if item.status = .delayed ∧ item.errorCategory = some "rate_limited" then .rateLimited
  else .ofQueue item.status

/-- `_unreadable_completed_raw_status` -/
def unreadableCompletedRawStatus (item : Option QueueItem) : SyncStatus :=
  match item.map rawStatusFromQueueItem with
  | none => .cacheUnreadable
  | some status => if status = .completed then .cacheUnreadable else status

/-- `_INLINE_UPSTREAM_STATUSES` -/
def inlineUpstream (status : WorkerPassStatus) : Bool :=
  [WorkerPassStatus.completed, .rateLimited, .transientFailure, .failed].contains status

/-- `_count_inline_worker_result` -/
def countInlineWorkerResult (result : MaintenanceResult) (worker : WorkerPassResult) :
    MaintenanceResult :=
  let result := if inlineUpstream worker.status then
    { result with upstreamRequestsTotal := result.upstreamRequestsTotal + 1 } else result
  if worker.status = .rateLimited then
    { result with
      upstream429Total := result.upstream429Total + 1
      retryAfterSeconds := worker.retryAfterSeconds }
  else result

def getTargetItem (target : MaintenanceTarget) : ArchiveProgram (Option QueueItem) :=
  match target.requestId with
  | some requestId => embed (getQueueItem requestId)
  | none => pure none

/-- `_target_terminal`: a retry that lies in the future hands the call back. -/
def targetTerminal (target : MaintenanceTarget) : ArchiveProgram Bool := do
  let readable ← embed (getReadableCompletedCache target.cacheKey)
  if readable.isSome then pure true
  else do
    let entry ← embed (getCacheEntry target.cacheKey)
    let item ← getTargetItem target
    let ended := (entry.any fun e => e.status = .failed || e.status = .rateLimited) ||
      item.any Broker.queueItemHasTerminalOutcome
    match item with
    | none => pure ended
    | some item =>
        if !item.status.pending then pure ended
        else if item.status ≠ .delayed then pure false
        else
          match item.nextAttemptAt with
          | none => pure false
          | some nextAttemptAt => do
              let now ← embed utcNow
              if nextAttemptAt ≤ now then pure false else pure ended

/-- `all(…)`, which stops at the first target that is not terminal. -/
def allTerminal : List MaintenanceTarget → ArchiveProgram Bool
  | [] => pure true
  | target :: rest => do
      let terminal ← targetTerminal target
      if terminal then allTerminal rest else pure false

/-- `time.sleep(min(0.05, max(0.01, timeout / 50)))` -/
def idleInterval (timeout : Timeout) : Int :=
  match timeout with
  | ⊤ => 50000
  | (timeout : Int) => min 50000 (max 10000 (timeout / 50))

/-- `while time.monotonic() < deadline: …`.  A pass that is not idle need not take any time, so
the number of rounds is an argument; a call that returns has had enough of them. -/
def drainRounds (d : Deployment) (targets : List MaintenanceTarget) (timeout deadline : Timeout) :
    Nat → MaintenanceResult → ArchiveProgram MaintenanceResult
  | 0, _ => .raise (.runtimeError "the deadline has not passed after all rounds")
  | rounds + 1, result => do
      let now ← embed utcNow
      if (now : Timeout) < deadline then do
        let terminal ← allTerminal targets
        if terminal then pure result
        else do
          -- `HuldraWorker(…)` draws an owner token for this pass.
          let uuid ← embed uuid4
          let worker ← embed (Worker.runOnce ⟨d, .inlineWorker uuid⟩
            (some (targets.map (·.cacheKey)).eraseDups))
          let result := countInlineWorkerResult result worker
          if worker.status = .idle then embed (timeSleep (idleInterval timeout)) else pure ()
          drainRounds d targets timeout deadline rounds result
      else pure result

/-! ## The initial plan -/

/-- One window of the plan: its request, its cache key and the entry that answers it. -/
structure PlannedRequest where
  request : ArxivRequest
  cacheKey : CacheKey
  readable : Option CacheEntry
  deriving DecidableEq, Repr

def planRequest (d : Deployment) (request : ArxivRequest) : ArchiveProgram PlannedRequest := do
  let cacheKey := Keys.requestCacheKey request
  let readable ← embed (getReadableCompletedCache cacheKey)
  match readable with
  | some readable => pure ⟨request, cacheKey, some readable⟩
  | none => do
      let composed ← embed (Broker.tryComposeCachedIdList d request cacheKey)
      match composed with
      | none => pure ⟨request, cacheKey, none⟩
      | some _ => do
          let readable ← embed (getReadableCompletedCache cacheKey)
          pure ⟨request, cacheKey, readable⟩

def planRequests (d : Deployment) : List ArxivRequest → ArchiveProgram (List PlannedRequest)
  | [] => pure []
  | request :: rest => do
      let planned ← planRequest d request
      let others ← planRequests d rest
      pure (planned :: others)

/-- The cache keys that have to be fetched. -/
def initialRequestsTotal (plan : List PlannedRequest) : Nat :=
  ((plan.filter fun planned => planned.readable.isNone).map (·.cacheKey)).eraseDups.length

/-- A job and its first page for each window. -/
def createTargets (mode : LegacySyncMode) (budget : MaintenanceBudget) :
    List PlannedRequest → ArchiveProgram (List MaintenanceTarget)
  | [] => pure []
  | planned :: rest => do
      let syncJobId ← createSyncJob planned.request mode (some budget.upstreamBudgetId)
      recordSyncJobPage
        { syncJobId := syncJobId
          request := planned.request
          cacheKey := planned.cacheKey
          status := .planned }
      let others ← createTargets mode budget rest
      pure
        ({ request := planned.request
           cacheKey := planned.cacheKey
           syncJobId := syncJobId
           pagesTotal := 1 } :: others)

/-- `initial_cache[cache_key]`: the last entry written under the key. -/
def initialCache (plan : List PlannedRequest) (cacheKey : CacheKey) : Option CacheEntry :=
  (plan.reverse.find? fun planned => planned.cacheKey = cacheKey).bind (·.readable)

/-- `_complete_initial_maintenance_budget_failure` -/
def completeInitialMaintenanceBudgetFailure (target : MaintenanceTarget)
    (errorCategory errorMessage : String) : ArchiveProgram MaintenanceTarget := do
  completeSyncJob
    { syncJobId := target.syncJobId
      status := .partial_
      coverageStatus := .partial_
      resultCount := 0
      totalResults := none
      pagesTotal := 1
      pagesCompletedTotal := 0
      errorCategory := some errorCategory
      errorMessage := some errorMessage }
  pure
    { target with
      coverageStatus := .partial_
      pagesTotal := 1
      pagesCompletedTotal := 0
      aggregateRawStatus := some .partial_
      aggregateErrorCategory := some errorCategory
      aggregateErrorMessage := some errorMessage }

/-- `mode == COMPLETE_WINDOW and time.monotonic() >= budget.deadline` -/
def deadlinePassed (mode : LegacySyncMode) (budget : MaintenanceBudget) : ArchiveProgram Bool :=
  match mode with
  | .slice => pure false
  | .completeWindow => do
      let now ← embed utcNow
      pure (decide (budget.deadline ≤ now))

/-- A window that is not in the cache is queued, unless its time is up. -/
def enqueueTarget (d : Deployment) (mode : LegacySyncMode) (budget : MaintenanceBudget)
    (target : MaintenanceTarget) (result : MaintenanceResult) :
    ArchiveProgram (MaintenanceTarget × MaintenanceResult) := do
  let result := { result with cacheMissTotal := result.cacheMissTotal + 1 }
  let late ← deadlinePassed mode budget
  if late then do
    let message := "maintenance deadline expired before initial enqueue"
    embed (failActiveUpstreamBudgetItems budget.upstreamBudgetId "deadline_budget_exceeded" message)
    let target ← completeInitialMaintenanceBudgetFailure target "deadline_budget_exceeded" message
    pure (target, result)
  else do
    let queued ← embed (enqueueRequestForWork { target.request with cachePolicy := .cacheOrEnqueue }
      target.cacheKey .fetchMissing (some budget.upstreamBudgetId)
      d.settings.requestTimeoutSeconds)
    recordSyncJobPage
      { syncJobId := target.syncJobId
        request := target.request
        cacheKey := target.cacheKey
        status := rawStatusFromQueueItem queued.1 }
    pure
      ({ target with
         requestId := some queued.1.requestId
         joinedExistingQueue := queued.2 },
        { result with queuedTotal := result.queuedTotal + 1 })

/-- The loop over the targets after the jobs are created. -/
def enqueueTargets (d : Deployment) (mode : LegacySyncMode) (budget : MaintenanceBudget)
    (cached : CacheKey → Option CacheEntry) :
    List MaintenanceTarget → MaintenanceResult →
      ArchiveProgram (List MaintenanceTarget × MaintenanceResult)
  | [], result => pure ([], result)
  | target :: rest, result => do
      let (target, result) ←
        if (cached target.cacheKey).isSome then do
          let _ ← refreshSyncJobPageFromCache target.syncJobId target.request target.cacheKey
          pure ({ target with initialCacheHit := true },
            { result with cacheHitTotal := result.cacheHitTotal + 1 })
        else enqueueTarget d mode budget target result
      let (others, result) ← enqueueTargets d mode budget cached rest result
      pure (target :: others, result)

/-! ## Complete windows -/

/-- The targets that are not terminal when the deadline has passed. -/
def expireTargets (errorMessage : String) :
    List MaintenanceTarget → ArchiveProgram (List MaintenanceTarget)
  | [] => pure []
  | target :: rest => do
      let terminal ← targetTerminal target
      let others ← expireTargets errorMessage rest
      if terminal then pure (target :: others)
      else
        pure
          ({ target with
             aggregateRawStatus := some .partial_
             aggregateErrorCategory := some "deadline_budget_exceeded"
             aggregateErrorMessage := some errorMessage } :: others)

/-- `_drain_targets_until_deadline` -/
def drainTargetsUntilDeadline (d : Deployment) (targets : List MaintenanceTarget)
    (result : MaintenanceResult) (budget : MaintenanceBudget) (timeout : Int) (rounds : Nat) :
    ArchiveProgram (List MaintenanceTarget × MaintenanceResult) :=
  if targets.isEmpty then pure (targets, result)
  else do
    let result ← drainRounds d targets timeout budget.deadline rounds result
    let now ← embed utcNow
    if budget.deadline ≤ now then do
      let message := "maintenance deadline expired before upstream fetch"
      let targets ← expireTargets message targets
      embed (failActiveUpstreamBudgetItems budget.upstreamBudgetId "deadline_budget_exceeded"
        message)
      pure (targets, result)
    else pure (targets, result)

/-- The job ends with what its first page has shown: `complete_sync_job` and the fields of the
target that repeat it. -/
def completeFirstPage (target : MaintenanceTarget) (first : CacheEntry) (status : SyncStatus)
    (coverageStatus : CoverageStatus) (errorCategory errorMessage : String) :
    ArchiveProgram MaintenanceTarget := do
  completeSyncJob
    { syncJobId := target.syncJobId
      status := status
      coverageStatus := coverageStatus
      resultCount := first.resultCount
      totalResults := first.totalResults
      pagesTotal := 1
      pagesCompletedTotal := 1
      errorCategory := some errorCategory
      errorMessage := some errorMessage }
  pure
    { target with
      coverageStatus := coverageStatus
      resultCount := first.resultCount
      totalResults := first.totalResults
      pagesTotal := 1
      pagesCompletedTotal := 1
      aggregateRawStatus := some status
      aggregateErrorCategory := some errorCategory
      aggregateErrorMessage := some errorMessage }

/-- `_complete_window_budget_failure` -/
def completeWindowBudgetFailure (target : MaintenanceTarget) (first : CacheEntry)
    (errorCategory errorMessage : String) : ArchiveProgram MaintenanceTarget :=
  completeFirstPage target first .partial_ .partial_ errorCategory errorMessage

/-- `_complete_followup_deadline_budget_failure` -/
def completeFollowupDeadlineBudgetFailure (target : MaintenanceTarget) (first : CacheEntry)
    (budget : MaintenanceBudget) : ArchiveProgram MaintenanceTarget := do
  let message := "maintenance deadline expired before follow-up enqueue"
  embed (failActiveUpstreamBudgetItems budget.upstreamBudgetId "deadline_budget_exceeded" message)
  deleteSyncJobFollowupPages target.syncJobId target.cacheKey
  completeWindowBudgetFailure target first "deadline_budget_exceeded" message

/-- The first page is not in the cache: the job ends with what is known of its fetch. -/
def completeUnfetchedWindow (target : MaintenanceTarget) : ArchiveProgram MaintenanceTarget := do
  let entry ← embed (getCacheEntry target.cacheKey)
  let item ← getTargetItem target
  let target :=
    { target with
      coverageStatus := .partial_
      pagesTotal := 1
      pagesCompletedTotal := 0
      aggregateRawStatus := some <|
        match entry, item with
        | some entry, _ => .ofCache entry.status
        | none, some item => .ofQueue item.status
        | none, none => .partial_
      aggregateErrorCategory :=
        match entry with
        | some entry => entry.errorCategory
        | none => item.bind (·.errorCategory)
      aggregateErrorMessage :=
        match entry with
        | some entry => entry.errorMessage
        | none => item.bind (·.errorMessage) }
  completeSyncJob
    { syncJobId := target.syncJobId
      status := .partial_
      coverageStatus := .partial_
      resultCount := 0
      totalResults := entry.bind (·.totalResults)
      pagesTotal := 1
      pagesCompletedTotal := 0
      errorCategory := target.aggregateErrorCategory
      errorMessage := target.aggregateErrorMessage }
  pure target

/-- The search did not say how many results there are.  The target keeps no error category. -/
def completeUncountedWindow (target : MaintenanceTarget) (first : CacheEntry) :
    ArchiveProgram MaintenanceTarget := do
  completeSyncJob
    { syncJobId := target.syncJobId
      status := .partial_
      coverageStatus := .partial_
      resultCount := first.resultCount
      totalResults := none
      pagesTotal := 1
      pagesCompletedTotal := 1
      errorCategory := some "missing_total_results"
      errorMessage := some "legacy search response did not include totalResults" }
  pure
    { target with
      coverageStatus := .partial_
      resultCount := first.resultCount
      totalResults := none
      pagesTotal := 1
      pagesCompletedTotal := 1
      aggregateRawStatus := some .partial_ }

/-- The pages after the first one: `ceil(remaining_results / max_results)` of them. -/
def followupPagesTotal (target : MaintenanceTarget) (first : CacheEntry) (totalResults : Nat) :
    Nat :=
  (totalResults - (target.request.start + first.resultCount) + target.request.maxResults - 1) /
    target.request.maxResults

/-- The requests of these pages, `max_results` apart. -/
def followupRequests (target : MaintenanceTarget) (first : CacheEntry) (totalResults : Nat) :
    List ArxivRequest :=
  (List.range (followupPagesTotal target first totalResults)).map fun i =>
    { target.request with
      start := target.request.start + first.resultCount + i * target.request.maxResults
      cachePolicy := .cacheOrEnqueue }

def planPages : List ArxivRequest → ArchiveProgram (List PlannedRequest)
  | [] => pure []
  | request :: rest => do
      let readable ← embed (getReadableCompletedCache (Keys.requestCacheKey request))
      let others ← planPages rest
      pure (⟨request, Keys.requestCacheKey request, readable⟩ :: others)

/-- One follow-up page: its target, unless the deadline has passed. -/
def enqueuePage (d : Deployment) (target : MaintenanceTarget) (budget : MaintenanceBudget)
    (page : PlannedRequest) (result : MaintenanceResult) :
    ArchiveProgram (Option MaintenanceTarget × MaintenanceResult) := do
  let late ← if page.readable.isNone then deadlinePassed .completeWindow budget else pure false
  if late then pure (none, result)
  else do
    let pageTarget : MaintenanceTarget :=
      { request := page.request
        cacheKey := page.cacheKey
        syncJobId := target.syncJobId
        pagesTotal := 1 }
    recordSyncJobPage
      { syncJobId := target.syncJobId
        request := page.request
        cacheKey := page.cacheKey
        status := .planned }
    if page.readable.isSome then pure (some { pageTarget with initialCacheHit := true }, result)
    else do
      let late ← deadlinePassed .completeWindow budget
      if late then pure (none, result)
      else do
        let queued ← embed (enqueueRequestForWork page.request page.cacheKey .fetchMissing
          (some budget.upstreamBudgetId) d.settings.requestTimeoutSeconds)
        let result := if queued.2 then result else
          { result with queuedTotal := result.queuedTotal + 1 }
        let late ← deadlinePassed .completeWindow budget
        if late then pure (none, result)
        else
          pure
            (some
              { pageTarget with
                requestId := some queued.1.requestId
                joinedExistingQueue := queued.2 }, result)

/-- How the loop that queues the follow-up pages ends: at the deadline, or with their targets. -/
def enqueuePages (d : Deployment) (target : MaintenanceTarget) (budget : MaintenanceBudget) :
    List PlannedRequest → MaintenanceResult →
      ArchiveProgram (Option (List MaintenanceTarget) × MaintenanceResult)
  | [], result => pure (some [], result)
  | page :: rest, result => do
      let (pageTarget, result) ← enqueuePage d target budget page result
      match pageTarget with
      | none => pure (none, result)
      | some pageTarget => do
          let (others, result) ← enqueuePages d target budget rest result
          pure (others.map fun others => pageTarget :: others, result)

/-- What the pages of a window have come to. -/
structure PageSums where
  pageResultsTotal : Nat := 0
  uniquePaperIds : List String := []
  totalResults : Option Nat
  pagesCompleted : Nat := 0
  firstErrorCategory : Option String := none
  firstErrorMessage : Option String := none
  deriving DecidableEq, Repr

/-- One page of `_finalize_complete_window_target`. -/
def addPage (syncJobId : Uuid) (sums : PageSums) (page : MaintenanceTarget) :
    ArchiveProgram PageSums := do
  let pageError ← refreshSyncJobPageFromCache syncJobId page.request page.cacheKey
  let readable ← embed (getReadableCompletedCache page.cacheKey)
  match readable with
  | some readable => do
      let papers ← embed (getCachedPapers page.cacheKey)
      pure
        { sums with
          pageResultsTotal := sums.pageResultsTotal + readable.resultCount
          uniquePaperIds := (sums.uniquePaperIds ++
            papers.map fun paper => Keys.arxivIdFamilyBase paper.arxivId).eraseDups
          totalResults := sums.totalResults.or readable.totalResults
          pagesCompleted := sums.pagesCompleted + 1 }
  | none =>
      if sums.firstErrorCategory.isNone then do
        let entry ← embed (getCacheEntry page.cacheKey)
        pure
          { sums with
            firstErrorCategory := page.aggregateErrorCategory.or pageError
            firstErrorMessage :=
              page.aggregateErrorMessage.or (entry.bind (·.errorMessage)) }
      else pure sums

def addPages (syncJobId : Uuid) : List MaintenanceTarget → PageSums → ArchiveProgram PageSums
  | [], sums => pure sums
  | page :: rest, sums => do
      let sums ← addPage syncJobId sums page
      addPages syncJobId rest sums

/-- `_finalize_complete_window_target` -/
def finalizeCompleteWindowTarget (target : MaintenanceTarget) (pages : List MaintenanceTarget) :
    ArchiveProgram MaintenanceTarget := do
  let sums ← addPages target.syncJobId pages { totalResults := target.totalResults }
  let resultCount := sums.uniquePaperIds.length
  -- Negative where the papers were read after more of them had been recorded.
  let overlapping : Int := (sums.pageResultsTotal : Int) - resultCount
  let (errorCategory, errorMessage) :=
    if 0 < overlapping ∧ sums.firstErrorCategory = none then
      (some "overlapping_page_results",
        some ("legacy search pages contained " ++ toString overlapping ++
          " duplicate or overlapping paper results"))
    else (sums.firstErrorCategory, sums.firstErrorMessage)
  let complete : Bool :=
    sums.pagesCompleted = pages.length && overlapping = 0 &&
      sums.totalResults.any fun total => total - target.request.start ≤ resultCount
  let target :=
    { target with
      coverageStatus := if complete then .complete else .partial_
      resultCount := resultCount
      totalResults := sums.totalResults
      pagesTotal := pages.length
      pagesCompletedTotal := sums.pagesCompleted
      aggregateRawStatus := some (if complete then .completed else .partial_)
      aggregateErrorCategory := if complete then none else errorCategory
      aggregateErrorMessage := if complete then none else errorMessage }
  completeSyncJob
    { syncJobId := target.syncJobId
      status := if complete then .completed else .partial_
      coverageStatus := target.coverageStatus
      resultCount := resultCount
      totalResults := sums.totalResults
      pagesTotal := pages.length
      pagesCompletedTotal := sums.pagesCompleted
      errorCategory := target.aggregateErrorCategory
      errorMessage := target.aggregateErrorMessage }
  pure target

/-- The follow-up pages of an admitted window: queued, drained and counted. -/
def drainPages (d : Deployment) (target : MaintenanceTarget) (first : CacheEntry)
    (plan : List PlannedRequest) (budget : MaintenanceBudget) (timeout : Int) (rounds : Nat)
    (result : MaintenanceResult) : ArchiveProgram (MaintenanceTarget × MaintenanceResult) := do
  let (pages, result) ← enqueuePages d target budget plan result
  match pages with
  | none => do
      let target ← completeFollowupDeadlineBudgetFailure target first budget
      pure (target, result)
  | some pages => do
      let (pages, result) ← drainTargetsUntilDeadline d pages result budget timeout rounds
      let target ← finalizeCompleteWindowTarget target (target :: pages)
      pure (target, result)

/-- The admission of the follow-up pages against the three budgets of the call. -/
def admitPages (d : Deployment) (target : MaintenanceTarget) (first : CacheEntry)
    (totalResults : Nat) (budget : MaintenanceBudget) (timeout : Int) (rounds : Nat)
    (result : MaintenanceResult) :
    ArchiveProgram (MaintenanceTarget × MaintenanceResult × MaintenanceBudget) := do
  let requiredPagesTotal := 1 + followupPagesTotal target first totalResults
  if budget.maxPagesPerWindow < requiredPagesTotal then do
    let target ← completeWindowBudgetFailure target first "page_budget_exceeded"
      ("complete window requires " ++ toString requiredPagesTotal ++ " pages; limit is " ++
        toString budget.maxPagesPerWindow)
    pure (target, result, budget)
  else do
    let plan ← planPages (followupRequests target first totalResults)
    let missing := plan.countP fun page => page.readable.isNone
    let requestsStarted ← getUpstreamRequestBudgetRequestsStarted budget.upstreamBudgetId
    match requestsStarted with
    | none => do
        let target ← completeWindowBudgetFailure target first "request_budget_exceeded"
          "upstream request budget no longer exists"
        pure (target, result, budget)
    | some requestsStarted => do
        let budget := { budget with reservedRequests := requestsStarted }
        if budget.maxRequestsTotal < budget.reservedRequests + missing then do
          let target ← completeWindowBudgetFailure target first "request_budget_exceeded"
            ("complete window would reserve " ++ toString missing ++ " additional requests; " ++
              toString budget.reservedRequests ++ " of " ++ toString budget.maxRequestsTotal ++
              " already used")
          pure (target, result, budget)
        else do
          let fits ← if missing = 0 then pure true
            else deadlineCanFitRequests d budget.deadline missing
          if !fits then do
            let target ← completeWindowBudgetFailure target first "deadline_budget_exceeded"
              "complete window cannot finish before the maintenance deadline"
            pure (target, result, budget)
          else do
            let budget := { budget with reservedRequests := budget.reservedRequests + missing }
            let (target, result) ← drainPages d target first plan budget timeout rounds result
            pure (target, result, budget)

/-- `_plan_and_drain_complete_window_target` -/
def planAndDrainCompleteWindowTarget (d : Deployment) (target : MaintenanceTarget)
    (budget : MaintenanceBudget) (timeout : Int) (rounds : Nat) (result : MaintenanceResult) :
    ArchiveProgram (MaintenanceTarget × MaintenanceResult × MaintenanceBudget) :=
  if target.aggregateErrorCategory = some "deadline_budget_exceeded" then
    if target.coverageStatus = .unknown then do
      let message := target.aggregateErrorMessage.getD
        "maintenance deadline expired before upstream fetch"
      let target ← completeInitialMaintenanceBudgetFailure target "deadline_budget_exceeded" message
      pure (target, result, budget)
    else pure (target, result, budget)
  else do
    let first ← embed (getReadableCompletedCache target.cacheKey)
    let _ ← refreshSyncJobPageFromCache target.syncJobId target.request target.cacheKey
    match first with
    | none => do
        let target ← completeUnfetchedWindow target
        pure (target, result, budget)
    | some first =>
        match first.totalResults with
        | none => do
            let target ← completeUncountedWindow target first
            pure (target, result, budget)
        | some totalResults =>
            if d.settings.legacySearchWindowResultCap < totalResults then do
              let target ← completeFirstPage target first .overflow .overflow
                "legacy_window_overflow" "legacy search window total_results exceeds configured cap"
              pure (target, result, budget)
            else if first.resultCount = 0 ∧ target.request.start < totalResults then do
              let target ← completeFirstPage target first .partial_ .partial_ "empty_page"
                "legacy search first page did not advance coverage"
              pure (target, result, budget)
            else
              admitPages d { target with totalResults := some totalResults } first totalResults
                budget timeout rounds result

def planAndDrainTargets (d : Deployment) (timeout : Int) (rounds : Nat) :
    List MaintenanceTarget → MaintenanceResult → MaintenanceBudget →
      ArchiveProgram (List MaintenanceTarget × MaintenanceResult)
  | [], result, _ => pure ([], result)
  | target :: rest, result, budget => do
      let (target, result, budget) ← planAndDrainCompleteWindowTarget d target budget timeout
        rounds result
      let (others, result) ← planAndDrainTargets d timeout rounds rest result budget
      pure (target :: others, result)

/-- `_drain_complete_window_targets` -/
def drainCompleteWindowTargets (d : Deployment) (targets : List MaintenanceTarget)
    (result : MaintenanceResult) (budget : MaintenanceBudget) (timeout : Int) (rounds : Nat) :
    ArchiveProgram (List MaintenanceTarget × MaintenanceResult) := do
  let (targets, result) ← drainTargetsUntilDeadline d targets result budget timeout rounds
  planAndDrainTargets d timeout rounds targets result budget

/-- `_drain_maintenance_targets` -/
def drainMaintenanceTargets (d : Deployment) (targets : List MaintenanceTarget)
    (result : MaintenanceResult) (waitTimeoutSeconds : Option Timeout) (rounds : Nat) :
    ArchiveProgram MaintenanceResult := do
  let timeout := maintenanceTimeoutSeconds (targets.map (·.request)) d.settings waitTimeoutSeconds
  let now ← embed utcNow
  drainRounds d targets timeout (timeout.map fun timeout => now + timeout) rounds result

/-! ## The result -/

/-- What `_finalize_maintenance_result` reads of one target. -/
structure FinalReading where
  readable : Option CacheEntry
  cacheEntry : Option CacheEntry
  queueItem : Option QueueItem
  serving : Option ArxivResult

def readTarget (d : Deployment) (target : MaintenanceTarget) : ArchiveProgram FinalReading := do
  let readable ← embed (getReadableCompletedCache target.cacheKey)
  let cacheEntry ← embed (getCacheEntry target.cacheKey)
  let queueItem ← getTargetItem target
  match readable with
  | none => pure ⟨none, cacheEntry, queueItem, none⟩
  | some readable => do
      let serving ← embed (Broker.resultFromCompletedCache d target.request target.cacheKey readable
        target.requestId)
      pure ⟨some readable, cacheEntry, queueItem, some serving⟩

/-- The raw status of a window that is not reported as a complete window, once it is read. -/
def rawStatusOf (reading : FinalReading) : SyncStatus :=
  match reading.readable, reading.cacheEntry with
  | some _, _ => .completed
  | none, none => (reading.queueItem.map rawStatusFromQueueItem).getD .missing
  | none, some entry =>
      if entry.status = .completed then unreadableCompletedRawStatus reading.queueItem
      else .ofCache entry.status

/-- The raw status, the target brought up to date and the counters that go with them. -/
def settleStatus (mode : LegacySyncMode) (target : MaintenanceTarget) (reading : FinalReading)
    (result : MaintenanceResult) :
    ArchiveProgram (SyncStatus × MaintenanceTarget × MaintenanceResult) :=
  if mode = .completeWindow ∧ target.coverageStatus ≠ .unknown then
    let result := match target.coverageStatus with
      | .complete =>
          { result with
            completedWindowsTotal := result.completedWindowsTotal + 1
            completeWindowsTotal := result.completeWindowsTotal + 1
            papersTotal := result.papersTotal + target.resultCount }
      | .partial_ => { result with partialWindowsTotal := result.partialWindowsTotal + 1 }
      | .overflow => { result with overflowWindowsTotal := result.overflowWindowsTotal + 1 }
      | .slice | .unknown => result
    pure (target.aggregateRawStatus.getD (.coverage target.coverageStatus), target,
      { result with
        completedSlicesTotal := result.completedSlicesTotal + target.pagesCompletedTotal })
  else do
    if reading.readable.isSome || reading.cacheEntry.isSome then
      let _ ← refreshSyncJobPageFromCache target.syncJobId target.request target.cacheKey
    match reading.readable with
    | none => pure (rawStatusOf reading, target, result)
    | some readable =>
        pure (.completed,
          { target with
            coverageStatus := readable.coverageStatus
            resultCount := readable.resultCount
            totalResults := readable.totalResults
            pagesTotal := max target.pagesTotal 1
            pagesCompletedTotal := 1 },
          { result with
            completedWindowsTotal := result.completedWindowsTotal + 1
            completedSlicesTotal := result.completedSlicesTotal + 1
            papersTotal := result.papersTotal + readable.resultCount })

/-- The counters of the windows that are not readable. -/
def countUnreadable (rawStatus : SyncStatus) (result : MaintenanceResult) : MaintenanceResult :=
  match rawStatus with
  | .skipped => { result with skippedWindowsTotal := result.skippedWindowsTotal + 1 }
  | .rateLimited => { result with rateLimitedWindowsTotal := result.rateLimitedWindowsTotal + 1 }
  | .failed | .cacheUnreadable | .partial_ | .overflow =>
      { result with failedWindowsTotal := result.failedWindowsTotal + 1 }
  | _ => result

/-- The cooldown a window is under, and whether it still is. -/
def countCooldown (reading : FinalReading) (result : MaintenanceResult) :
    ArchiveProgram MaintenanceResult := do
  let active (until_ : Option Int) : ArchiveProgram MaintenanceResult :=
    match until_ with
    | none => pure { result with cooldownUntil := none }
    | some cooldownUntil => do
        let now ← embed utcNow
        let active := if now < cooldownUntil then 1 else 0
        pure
          { result with
            cooldownUntil := some cooldownUntil
            cooldownActiveTotal := result.cooldownActiveTotal + active }
  match reading.cacheEntry.bind (·.cooldownUntil), reading.queueItem with
  | some cooldownUntil, _ => active (some cooldownUntil)
  | none, some item =>
      if item.errorCategory = some "cooldown" ∨ item.errorCategory = some "rate_limited" then
        active item.nextAttemptAt
      else pure result
  | none, none => pure result

/-- `request_cooldown_until`, `request_error_category` and `request_error_message`. -/
def requestErrors (target : MaintenanceTarget) (reading : FinalReading) :
    Option Int × Option String × Option String :=
  let entry := reading.cacheEntry
  let cooldownUntil := entry.bind (·.cooldownUntil)
  let errorCategory := entry.bind (·.errorCategory)
  let errorMessage := entry.bind (·.errorMessage)
  let (cooldownUntil, errorCategory, errorMessage) :=
    match reading.queueItem with
    | some item =>
        if entry.all fun e => e.status = .completed then
          (item.nextAttemptAt.or cooldownUntil, item.errorCategory.or errorCategory,
            item.errorMessage.or errorMessage)
        else (cooldownUntil, errorCategory, errorMessage)
    | none => (cooldownUntil, errorCategory, errorMessage)
  (cooldownUntil, target.aggregateErrorCategory.or errorCategory,
    target.aggregateErrorMessage.or errorMessage)

def budgetExhausted (errorCategory : Option String) : Bool :=
  ["page_budget_exceeded", "request_budget_exceeded", "deadline_budget_exceeded"].any
    fun category => errorCategory = some category

/-- The raw statuses with which a slice ends here: the work is over, or it is handed to a worker
and the caller does not wait for it. -/
def closesSlice (completePendingJobs : Bool) (rawStatus : SyncStatus) : Bool :=
  rawStatus.terminalRaw || (completePendingJobs && rawStatus.handoff)

/-- One target of `_finalize_maintenance_result`. -/
def finalizeTarget (d : Deployment) (mode : LegacySyncMode) (completePendingJobs : Bool)
    (target : MaintenanceTarget) (result : MaintenanceResult) :
    ArchiveProgram MaintenanceResult := do
  let reading ← readTarget d target
  let (rawStatus, target, result) ← settleStatus mode target reading result
  let result := if reading.readable.isNone then countUnreadable rawStatus result else result
  let result ← countCooldown reading result
  let (cooldownUntil, errorCategory, errorMessage) := requestErrors target reading
  let result := if budgetExhausted errorCategory then
    { result with budgetExhaustedWindowsTotal := result.budgetExhaustedWindowsTotal + 1 }
    else result
  if mode = .slice ∧ closesSlice completePendingJobs rawStatus = true then
    completeSyncJob
      { syncJobId := target.syncJobId
        status := rawStatus
        coverageStatus := target.coverageStatus
        resultCount := target.resultCount
        totalResults := target.totalResults
        pagesTotal := max target.pagesTotal 1
        pagesCompletedTotal := target.pagesCompletedTotal
        errorCategory := errorCategory
        errorMessage := errorMessage }
  else pure ()
  pure
    { result with
      requests := result.requests ++
        [{ syncJobId := target.syncJobId
           cacheKey := target.cacheKey
           requestId := target.requestId
           searchQuery := target.request.searchQuery
           submittedStart := target.request.submittedStart
           submittedEnd := target.request.submittedEnd
           rawCacheStatus := rawStatus
           servingStatus :=
             match reading.serving with
             | some serving => .served serving.status
             | none => .raw rawStatus
           coverageStatus := target.coverageStatus
           cacheHit := target.initialCacheHit
           joinedExistingQueue := target.joinedExistingQueue
           upstreamStatus := reading.cacheEntry.bind (·.upstreamStatus)
           cooldownUntil := cooldownUntil
           errorCategory := errorCategory
           errorMessage := errorMessage
           papersTotal := target.resultCount
           resultCount := target.resultCount
           totalResults := target.totalResults
           pagesTotal := target.pagesTotal
           pagesCompletedTotal := target.pagesCompletedTotal }] }

/-- `_finalize_maintenance_result` -/
def finalizeMaintenanceResult (d : Deployment) (mode : LegacySyncMode)
    (completePendingJobs : Bool) :
    List MaintenanceTarget → MaintenanceResult → ArchiveProgram MaintenanceResult
  | [], result => pure { result with cooldownActive := decide (0 < result.cooldownActiveTotal) }
  | target :: rest, result => do
      let result ← finalizeTarget d mode completePendingJobs target result
      finalizeMaintenanceResult d mode completePendingJobs rest result

/-! ## `sync_windows` -/

/-- The part of the call that waits. -/
def drain (d : Deployment) (call : SyncWindowsCall) (rounds : Nat) (budget : MaintenanceBudget)
    (timeout : Int) (targets : List MaintenanceTarget) (result : MaintenanceResult) :
    ArchiveProgram (List MaintenanceTarget × MaintenanceResult) :=
  if !call.wait || targets.isEmpty then pure (targets, result)
  else
    match call.mode with
    | .completeWindow => drainCompleteWindowTargets d targets result budget timeout rounds
    | .slice => do
        let result ← drainMaintenanceTargets d targets result call.waitTimeoutSeconds rounds
        pure (targets, result)

/-- The call once its plan is admitted, up to its last pass over the windows. -/
def syncPlanned (d : Deployment) (call : SyncWindowsCall) (rounds : Nat)
    (plan : List PlannedRequest) (timeout deadline deadlineAt : Int) :
    ArchiveProgram (List MaintenanceTarget × MaintenanceResult) := do
  let upstreamBudgetId ← embed (createUpstreamRequestBudget call.maxRequestsTotal
    (if call.mode = .completeWindow then some deadlineAt else none))
  let budget : MaintenanceBudget :=
    { upstreamBudgetId := upstreamBudgetId
      maxPagesPerWindow := call.maxPagesPerWindow
      maxRequestsTotal := call.maxRequestsTotal
      deadline := deadline
      deadlineAt := deadlineAt
      reservedRequests := initialRequestsTotal plan }
  let targets ← createTargets call.mode budget plan
  let (targets, result) ← enqueueTargets d call.mode budget (initialCache plan) targets
    { requestedTotal := targets.length }
  drain d call rounds budget timeout targets result

/-- The call up to its last pass over the windows, of which there are none without a request. -/
def windowsDrained (d : Deployment) (call : SyncWindowsCall) (rounds : Nat) :
    ArchiveProgram (List MaintenanceTarget × MaintenanceResult) :=
  if call.mode = .completeWindow ∧ call.wait = false then
    .raise (.valueError "complete_window mode requires wait=True")
  else if call.maxPagesPerWindow = 0 ∨ call.maxRequestsTotal = 0 then
    .raise (.valueError "maintenance budgets must be positive")
  else if call.requests.isEmpty then pure ([], {})
  else do
    let plan ← planRequests d call.requests
    let required := initialRequestsTotal plan
    if call.maxRequestsTotal < required then
      .raise (.valueError ("maintenance plan exceeds request budget: required=" ++
        toString required ++ ", limit=" ++ toString call.maxRequestsTotal))
    else do
      let started ← embed utcNow
      let now ← embed utcNow
      match maintenanceTimeoutSeconds call.requests d.settings call.waitTimeoutSeconds with
      -- `timedelta(seconds=timeout)`
      | ⊤ => .raise .overflowError
      | (timeout : Int) => do
          let deadline := started + timeout
          let deadlineAt := now + timeout
          let fits ← if call.mode = .completeWindow ∧ 0 < required then
            deadlineCanFitRequests d deadline required else pure true
          if !fits then
            .raise (.valueError "maintenance plan exceeds runtime deadline budget")
          else syncPlanned d call rounds plan timeout deadline deadlineAt

/-- `sync_windows`, with the number of rounds its waiting may take. -/
def syncWindows (d : Deployment) (call : SyncWindowsCall) (rounds : Nat) :
    ArchiveProgram MaintenanceResult := do
  let (targets, result) ← windowsDrained d call rounds
  finalizeMaintenanceResult d call.mode (!call.wait) targets result

end Maintenance

end Huldra
