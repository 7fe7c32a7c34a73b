import Huldra.Limiter
import Mathlib.Algebra.Ring.Int.Defs

/-!
# Worker — one pass of a queue worker

`run_once` claims an item, plans what of an id list is missing, passes the rate limiter, fences
its claim, lease and reservations, charges the upstream budgets, fetches, and reports.  Every
store call is an operation of its own, so another process may run between any two of them.
The worker's heartbeat rows are not modelled: nothing here reads them.
-/

namespace Huldra

open Process (Prog)

inductive WorkerPassStatus where
  | idle | cacheHit | blocked | coolingDown | rateLimited | transientFailure | failed | completed
  | budgetExceeded | lostLease | lostClaim
  deriving DecidableEq, Repr

structure WorkerPassResult where
  status : WorkerPassStatus
  requestId : Option Uuid := none
  cacheKey : Option CacheKey := none
  papersTotal : Nat := 0
  cooldownUntil : Option Int := none
  retryAfterSeconds : Option Int := none
  errorCategory : Option String := none
  errorMessage : Option String := none
  deriving DecidableEq, Repr

/-- A `dict` of papers by id. -/
abbrev PaperDict := List (String × ArxivPaper)

namespace PaperDict

def get? (papers : PaperDict) (arxivId : String) : Option ArxivPaper :=
  (papers.find? fun entry => entry.1 = arxivId).map Prod.snd

/-- `papers[arxiv_id] = paper` -/
def set (papers : PaperDict) (arxivId : String) (paper : ArxivPaper) : PaperDict :=
  if (papers.get? arxivId).isSome then
    papers.map fun entry => if entry.1 = arxivId then (arxivId, paper) else entry
  else papers ++ [(arxivId, paper)]

/-- `papers.setdefault(arxiv_id, paper)` -/
def setDefault (papers : PaperDict) (arxivId : String) (paper : ArxivPaper) : PaperDict :=
  if (papers.get? arxivId).isSome then papers else papers ++ [(arxivId, paper)]

/-- `[papers[arxiv_id] for arxiv_id in ids]`, none where a key is missing. -/
def getAll? (papers : PaperDict) (ids : List String) : Option (List ArxivPaper) :=
  ids.mapM papers.get?

end PaperDict

/-- `_IdListFetchPlan` -/
structure IdListFetchPlan where
  requestedIds : List String
  fetchRequest : Option ArxivRequest := none
  reservedIds : List String := []
  papersById : PaperDict := []
  blockedUntil : Option Int := none
  deriving DecidableEq, Repr

/-- A worker process: what it runs with, and its owner token. -/
structure WorkerConfig where
  deployment : Deployment
  ownerToken : OwnerToken

namespace Worker

/-! ## Local helpers -/

def backoffSeconds (attemptsTotal : Nat) : Int :=
  min 3600 (max 5 (2 ^ max 1 attemptsTotal))

def isPureIdListRequest (request : ArxivRequest) : Bool :=
  !request.idList.isEmpty && request.searchQuery.isNone && request.submittedStart.isNone &&
    request.submittedEnd.isNone && request.start = 0 && request.sortBy = .submittedDate &&
    request.sortOrder = .descending && request.idList.length ≤ request.maxResults

/-- `_versionless_arxiv_id` -/
def versionlessArxivId (arxivId : String) : String :=
  match Keys.arxivVersion arxivId with
  | none => arxivId
  | some version =>
      String.ofList (arxivId.toList.take (arxivId.length - ((toString version).length + 1)))

/-- `_add_id_list_paper_lookup` -/
def addIdListPaperLookup (lookup : PaperDict) (paper : ArxivPaper) : PaperDict :=
  let arxivId := Keys.normalizeArxivId paper.arxivId
  let lookup := lookup.set arxivId paper
  let versionless := versionlessArxivId arxivId
  if versionless ≠ arxivId then lookup.setDefault versionless paper else lookup

/-- `_id_list_paper_lookup` -/
def idListPaperLookup (cached : PaperDict) (fetched : List ArxivPaper) : PaperDict :=
  fetched.foldl addIdListPaperLookup ((cached.map Prod.snd).foldl addIdListPaperLookup cached)

/-- `_ordered_id_list_papers`, none where a key is missing. -/
def orderedIdListPapers (requestedIds : List String) (papers : PaperDict) :
    Option (List ArxivPaper) :=
  (papers.getAll? requestedIds).map fun found =>
    found.foldl
      (fun acc paper =>
        if acc.any fun p => p.arxivId = paper.arxivId then acc else acc ++ [paper])
      []

def fetchOwnershipTtl (w : WorkerConfig) (item : QueueItem) : Int :=
  let settings := w.deployment.settings
  -- The request of an item is read from its JSON, in which no timeout is infinite.
  let requestTimeout := (item.request.timeoutSeconds.getD settings.requestTimeoutSeconds).untopD 0
  max settings.queueClaimTimeoutSeconds
    (max settings.leaseTimeoutSeconds
      (ceilSeconds (requestTimeout + w.deployment.storeTimeout + seconds 5)))

def result (item : QueueItem) (status : WorkerPassStatus) : WorkerPassResult :=
  { status := status, requestId := some item.requestId, cacheKey := some item.cacheKey }

/-- The request a plan fetches: the item's own, for the ids still missing. -/
def missingRequest (item : QueueItem) (ids : List String) : ArxivRequest :=
  { item.request with idList := ids, cachePolicy := .cacheOrEnqueue }

/-! ## Id plans -/

/-- `_release_id_plan` -/
def releaseIdPlan (w : WorkerConfig) (plan : Option IdListFetchPlan) : Program Unit :=
  match plan with
  | some plan => releaseIdFetchReservations plan.reservedIds w.ownerToken
  | none => pure ()

/-- `_plan_id_list_fetch` -/
def planIdListFetch (w : WorkerConfig) (item : QueueItem) : Program (Option IdListFetchPlan) :=
  if item.workKind ≠ .fetchMissing ∨ isPureIdListRequest item.request = false then pure none
  else do
    let requestedIds := (item.request.idList.map Keys.normalizeArxivId).eraseDups
    let papersById ← getPapersByIds requestedIds
    let missing := requestedIds.filter fun arxivId => (PaperDict.get? papersById arxivId).isNone
    if missing.isEmpty then
      pure (some { requestedIds := requestedIds, papersById := papersById })
    else do
      let reservations ← acquireIdFetchReservations missing w.ownerToken item.requestId
        w.deployment.settings.queueClaimTimeoutSeconds
      match reservations.blockedUntil with
      | some blockedUntil =>
          pure (some
            { requestedIds := requestedIds
              papersById := papersById
              blockedUntil := some blockedUntil })
      | none =>
          pure (some
            { requestedIds := requestedIds
              fetchRequest := some (missingRequest item reservations.acquiredIds)
              reservedIds := reservations.acquiredIds
              papersById := papersById })

/-- `_revalidate_id_list_fetch_plan` -/
def revalidateIdListFetchPlan (w : WorkerConfig) (item : QueueItem) (plan : IdListFetchPlan)
    (ttlSeconds : Int) : Program IdListFetchPlan :=
  if plan.reservedIds.isEmpty then pure plan
  else do
    let papersById ← getPapersByIds plan.requestedIds
    let missing := plan.requestedIds.filter fun arxivId =>
      (PaperDict.get? papersById arxivId).isNone
    releaseIdFetchReservations (plan.reservedIds.filter fun arxivId => !missing.contains arxivId)
      w.ownerToken
    let stillReserved := plan.reservedIds.filter fun arxivId => missing.contains arxivId
    if missing.isEmpty then
      pure { requestedIds := plan.requestedIds, papersById := papersById }
    else do
      -- `and` is lazy: the renewal is only asked for when the ids still match.
      let renewed ←
        if missing.all fun arxivId => stillReserved.contains arxivId then
          renewIdFetchReservations stillReserved w.ownerToken ttlSeconds
        else pure false
      if renewed = false then do
        let now ← utcNow
        pure
          { requestedIds := plan.requestedIds
            reservedIds := stillReserved
            papersById := papersById
            blockedUntil := some (now + w.deployment.settings.workerPollIntervalSeconds) }
      else
        pure
          { requestedIds := plan.requestedIds
            fetchRequest := some (missingRequest item stillReserved)
            reservedIds := stillReserved
            papersById := papersById }

/-- The cached papers of a plan with nothing left to fetch, recorded as the item's result. -/
def recordCachedIdList (item : QueueItem) (plan : IdListFetchPlan) : Program Nat :=
  match plan.papersById.getAll? plan.requestedIds with
  | none => .raise .keyError
  | some papers => do
      recordCompletedCacheEntry item.cacheKey item.request papers (some papers.length) 200 0
      pure papers.length

/-! ## Endings before the fetch -/

/-- `_defer_budgeted_item` -/
def deferBudgetedItem (w : WorkerConfig) (item : QueueItem) (plan : Option IdListFetchPlan) :
    Program WorkerPassResult := do
  releaseLease Limiter.leaseName w.ownerToken
  let nextAttempt ← utcNow
  let message := "upstream budget applies to the next queue attempt"
  releaseOrDelayQueueItem item.requestId (some nextAttempt) (some "budget_deferred")
    (some message) .delayed
  releaseIdPlan w plan
  pure
    { result item .blocked with
      cooldownUntil := some nextAttempt
      errorCategory := some "budget_deferred"
      errorMessage := some message }

/-- `error_category.replace("_", " ")` -/
def spaced (errorCategory : String) : String :=
  String.ofList (errorCategory.toList.map fun c => if c = '_' then ' ' else c)

/-- `_fail_budgeted_item` -/
def failBudgetedItem (w : WorkerConfig) (item : QueueItem) (plan : Option IdListFetchPlan)
    (errorCategory : String) : Program WorkerPassResult := do
  releaseLease Limiter.leaseName w.ownerToken
  let message := spaced errorCategory
  recordCacheFailure item.cacheKey item.request errorCategory message .failed none none 0
  releaseOrDelayQueueItem item.requestId none (some errorCategory) (some message) .failed
  releaseIdPlan w plan
  pure
    { result item .budgetExceeded with
      errorCategory := some errorCategory
      errorMessage := some message }

/-- What a budget error other than none leads to. -/
def endBudgetedItem (w : WorkerConfig) (item : QueueItem) (plan : Option IdListFetchPlan)
    (budgetError : String) : Program WorkerPassResult :=
  if budgetError = "budget_deferred" then deferBudgetedItem w item plan
  else failBudgetedItem w item plan budgetError

/-- `_fetch_ownership_failure` -/
def fetchOwnershipFailure (w : WorkerConfig) (item : QueueItem) (plan : Option IdListFetchPlan)
    (reason : String) : Program WorkerPassResult := do
  releaseLease Limiter.leaseName w.ownerToken
  if reason = "id_fetch_reserved" then do
    let now ← utcNow
    let nextAttempt := now + w.deployment.settings.workerPollIntervalSeconds
    releaseOrDelayQueueItem item.requestId (some nextAttempt) (some reason)
      (some "id fetch reservation changed before network I/O") .delayed
    releaseIdPlan w plan
    pure
      { result item .blocked with
        cooldownUntil := some nextAttempt
        errorCategory := some reason }
  else do
    releaseIdPlan w plan
    let status : WorkerPassStatus := if reason = "lost_lease" then .lostLease else .lostClaim
    let message :=
      if reason = "lost_lease" then "upstream lease changed before network I/O"
      else "queue claim changed before network I/O"
    pure
      { result item status with
        errorCategory := some reason
        errorMessage := some message }

/-! ## The gate -/

/-- The atomic fence of claim, lease and reservations. -/
def fence (w : WorkerConfig) (item : QueueItem) (plan : Option IdListFetchPlan)
    (ttlSeconds : Int) : Program (Option String) :=
  renewWorkerFetchOwnership item.requestId w.ownerToken Limiter.leaseName ttlSeconds
    (match plan with
    | some plan => plan.reservedIds
    | none => [])

/-- The last step of the gate: the fence once more, so that nothing mixed is left at fetch time. -/
def closeGate (w : WorkerConfig) (item : QueueItem) (plan : Option IdListFetchPlan)
    (ttlSeconds : Int) : Program (Option IdListFetchPlan × Option WorkerPassResult) := do
  let reason ← fence w item plan ttlSeconds
  match reason with
  | some reason => do
      let failure ← fetchOwnershipFailure w item plan reason
      pure (plan, some failure)
  | none => pure (plan, none)

/-- The gate's look at a plan that reserves ids. -/
def gatePlan (w : WorkerConfig) (item : QueueItem) (plan : IdListFetchPlan) (ttlSeconds : Int) :
    Program (Option IdListFetchPlan × Option WorkerPassResult) := do
  let plan ← revalidateIdListFetchPlan w item plan ttlSeconds
  match plan.blockedUntil with
  | some blockedUntil => do
      releaseLease Limiter.leaseName w.ownerToken
      releaseOrDelayQueueItem item.requestId (some blockedUntil) (some "id_fetch_reserved")
        (some "id fetch reservation changed before network I/O") .delayed
      releaseIdPlan w (some plan)
      pure (some plan, some
        { result item .blocked with
          cooldownUntil := some blockedUntil
          errorCategory := some "id_fetch_reserved" })
  | none =>
      if plan.fetchRequest.isNone then do
        releaseLease Limiter.leaseName w.ownerToken
        let papersTotal ← recordCachedIdList item plan
        completeQueueItem item.requestId
        releaseIdPlan w (some plan)
        pure (some plan, some { result item .cacheHit with papersTotal := papersTotal })
      else closeGate w item (some plan) ttlSeconds

/-- `_gate_fetch_ownership` -/
def gateFetchOwnership (w : WorkerConfig) (item : QueueItem) (plan : Option IdListFetchPlan)
    (ttlSeconds : Int) : Program (Option IdListFetchPlan × Option WorkerPassResult) := do
  let reason ← fence w item plan ttlSeconds
  match reason with
  | some reason => do
      let failure ← fetchOwnershipFailure w item plan reason
      pure (plan, some failure)
  | none => do
      let cached ← getReadableCompletedCache item.cacheKey
      match cached.filter fun _ => item.workKind = .fetchMissing with
      | some cached => do
          releaseLease Limiter.leaseName w.ownerToken
          completeQueueItem item.requestId
          releaseIdPlan w plan
          pure (plan, some { result item .cacheHit with papersTotal := cached.resultCount })
      | none =>
          match plan with
          | some plan => gatePlan w item plan ttlSeconds
          | none => closeGate w item none ttlSeconds

/-! ## The fetch and its outcomes -/

/-- `self.fetcher.fetch(request)` -/
def fetch (item : QueueItem) (request : ArxivRequest) : Program FetchResult := do
  perform (.upstream (.fetchBegin
    { requestId := item.requestId, attempt := item.attemptsTotal, request := request }))
  perform (.upstream .fetchEnd)

def onRateLimited (w : WorkerConfig) (item : QueueItem) (plan : Option IdListFetchPlan)
    (retryAfterSeconds : Option Int) (message : String) (statusCode : Int) :
    Program WorkerPassResult := do
  let cooldownUntil ← Limiter.afterRateLimit w.deployment w.ownerToken retryAfterSeconds statusCode
    (some message)
  recordRateLimited item.cacheKey item.request cooldownUntil statusCode message
  releaseOrDelayQueueItem item.requestId (some cooldownUntil) (some "rate_limited") (some message)
    .delayed
  releaseIdPlan w plan
  pure
    { result item .rateLimited with
      cooldownUntil := some cooldownUntil
      retryAfterSeconds := retryAfterSeconds
      errorCategory := some "rate_limited"
      errorMessage := some message }

def onTransientFailure (w : WorkerConfig) (item : QueueItem) (plan : Option IdListFetchPlan)
    (message : String) (statusCode : Option Int) : Program WorkerPassResult := do
  Limiter.afterFailure w.ownerToken statusCode message
  let now ← utcNow
  let nextAttempt := now + seconds (backoffSeconds item.attemptsTotal)
  recordCacheFailure item.cacheKey item.request "transient" message .failed none statusCode 1
  releaseOrDelayQueueItem item.requestId (some nextAttempt) (some "transient") (some message)
    .delayed
  releaseIdPlan w plan
  pure
    { result item .transientFailure with
      cooldownUntil := some nextAttempt
      errorCategory := some "transient"
      errorMessage := some message }

/-- The response of the server was final: the item fails. -/
def onNonRetryable (w : WorkerConfig) (item : QueueItem) (plan : Option IdListFetchPlan)
    (message : String) (statusCode : Option Int) : Program WorkerPassResult := do
  Limiter.afterFailure w.ownerToken statusCode message
  recordCacheFailure item.cacheKey item.request "non_retryable" message .failed none statusCode 1
  releaseOrDelayQueueItem item.requestId none (some "non_retryable") (some message) .failed
  releaseIdPlan w plan
  pure
    { result item .failed with
      errorCategory := some "non_retryable"
      errorMessage := some message }

/-- The `except` clauses of the fetch; an exception that none of them names passes through. -/
def onFetchError (w : WorkerConfig) (item : QueueItem) (plan : Option IdListFetchPlan) :
    Exn → Program WorkerPassResult
  | .rateLimitedError retryAfter message statusCode =>
      onRateLimited w item plan retryAfter message statusCode
  | .transientFetchError message statusCode => onTransientFailure w item plan message statusCode
  | .nonRetryableFetchError message statusCode => onNonRetryable w item plan message statusCode
  | .huldraFetchError message statusCode => do
      Limiter.afterFailure w.ownerToken statusCode message
      releaseIdPlan w plan
      .raise (.huldraFetchError message statusCode)
  | e => .raise e

/-- The result is recorded, reported to the limiter, and the item completed. -/
def onFetched (w : WorkerConfig) (item : QueueItem) (plan : Option IdListFetchPlan)
    (papers : List ArxivPaper) (totalResults : Option Nat) (upstreamStatus : Int) :
    Program WorkerPassResult := do
  recordCompletedCacheEntry item.cacheKey item.request papers totalResults upstreamStatus 1
  Limiter.afterSuccess w.ownerToken upstreamStatus
  completeQueueItem item.requestId
  releaseIdPlan w plan
  pure { result item .completed with papersTotal := papers.length }

def onFetchResult (w : WorkerConfig) (item : QueueItem) (plan : Option IdListFetchPlan)
    (fetched : FetchResult) : Program WorkerPassResult :=
  match plan with
  | none => onFetched w item none fetched.papers fetched.totalResults fetched.upstreamStatus
  | some idPlan =>
      let papersById := idListPaperLookup idPlan.papersById fetched.papers
      if idPlan.requestedIds.any fun arxivId => (papersById.get? arxivId).isNone then
        onNonRetryable w item plan "upstream response omitted requested IDs"
          (some fetched.upstreamStatus)
      else
        match orderedIdListPapers idPlan.requestedIds papersById with
        | none => .raise .keyError
        | some papers =>
            onFetched w item plan papers (some papers.length) fetched.upstreamStatus

/-! ## From admission to the fetch -/

/-- Issue the request with this timeout, and report. -/
def fetchAndReport (w : WorkerConfig) (item : QueueItem) (plan : Option IdListFetchPlan)
    (request : ArxivRequest) : Program WorkerPassResult :=
  (fetch item request).handle (onFetchResult w item plan) (onFetchError w item plan)

def fetchRequestOf (item : QueueItem) (plan : Option IdListFetchPlan) : ArxivRequest :=
  (plan.bind (·.fetchRequest)).getD item.request

/-- `min(fetch_request.timeout_seconds or default, remaining)` -/
def boundedRequest (w : WorkerConfig) (request : ArxivRequest) (remaining : Int) : ArxivRequest :=
  { request with
    timeoutSeconds := some
      (min (request.timeoutSeconds.getD w.deployment.settings.requestTimeoutSeconds)
        (remaining : Timeout)) }

/-- The time left when the budget deadline has been read a second time. -/
def remainingAfterRecheck (w : WorkerConfig) (deadline : Option Int) : Program Int :=
  match deadline with
  | some deadline => do
      let now ← utcNow
      pure (deadline - now)
  | none => pure w.deployment.settings.requestTimeoutSeconds

/-- The second half of the gate has passed: bound the timeout by the budget deadline and fetch. -/
def fetchWithinDeadline (w : WorkerConfig) (item : QueueItem) (plan : Option IdListFetchPlan) :
    Program WorkerPassResult := do
  let request := fetchRequestOf item plan
  let budgetDeadline ← queueItemUpstreamDeadline item.requestId
  match budgetDeadline with
  | none => fetchAndReport w item plan request
  | some deadline => do
      let now ← utcNow
      if 0 < deadline - now then
        fetchAndReport w item plan (boundedRequest w request (deadline - now))
      else do
        let budgetError ← checkQueueItemUpstreamRequestDeadlines item.requestId
        match budgetError with
        | some error => endBudgetedItem w item plan error
        | none => do
            let deadline ← queueItemUpstreamDeadline item.requestId
            let remaining ← remainingAfterRecheck w deadline
            fetchAndReport w item plan (boundedRequest w request remaining)

/-- The budgets are charged: gate once more, check the deadlines once more, fetch. -/
def fetchCharged (w : WorkerConfig) (item : QueueItem) (plan : Option IdListFetchPlan)
    (ttlSeconds : Int) : Program WorkerPassResult := do
  let gate ← gateFetchOwnership w item plan ttlSeconds
  match gate.2 with
  | some result => pure result
  | none => do
      let budgetError ← checkQueueItemUpstreamRequestDeadlines item.requestId
      match budgetError with
      | some error => endBudgetedItem w item gate.1 error
      | none => fetchWithinDeadline w item gate.1

/-- Charge the budgets of the item's current attempt. -/
def chargeAndFetch (w : WorkerConfig) (item : QueueItem) (plan : Option IdListFetchPlan)
    (ttlSeconds : Int) : Program WorkerPassResult := do
  let reserveError ← reserveQueueItemUpstreamRequest item.requestId
  let budgetError ← match reserveError with
    | some error => pure (some error)
    | none => checkQueueItemUpstreamRequestDeadlines item.requestId
  match budgetError with
  | some error => endBudgetedItem w item plan error
  | none => fetchCharged w item plan ttlSeconds

/-- The wait is over: gate, charge, fetch. -/
def gateAndCharge (w : WorkerConfig) (item : QueueItem) (plan : Option IdListFetchPlan) :
    Program WorkerPassResult := do
  let ttlSeconds := fetchOwnershipTtl w item
  let gate ← gateFetchOwnership w item plan ttlSeconds
  match gate.2 with
  | some result => pure result
  | none => chargeAndFetch w item gate.1 ttlSeconds

/-- The limiter has admitted the pass. -/
def fetchAdmitted (w : WorkerConfig) (item : QueueItem) (plan : Option IdListFetchPlan)
    (waitSeconds : Int) : Program WorkerPassResult := do
  if 0 < waitSeconds then timeSleep waitSeconds else pure ()
  gateAndCharge w item plan

/-- The limiter has refused: put the item off. -/
def delayRefused (w : WorkerConfig) (item : QueueItem) (plan : Option IdListFetchPlan)
    (decision : RateLimitDecision) : Program WorkerPassResult := do
  let nextAttempt ← match decision.cooldownUntil with
    | some cooldown => pure cooldown
    | none => do
        let now ← utcNow
        pure (now + w.deployment.settings.workerPollIntervalSeconds)
  releaseOrDelayQueueItem item.requestId (some nextAttempt) decision.blockedReason
    decision.blockedReason .delayed
  releaseIdPlan w plan
  pure
    { result item
        (if decision.blockedReason = some "cooldown" then .coolingDown else .blocked) with
      cooldownUntil := decision.cooldownUntil
      errorCategory := decision.blockedReason }

def passLimiter (w : WorkerConfig) (item : QueueItem) (plan : Option IdListFetchPlan) :
    Program WorkerPassResult := do
  let decision ← Limiter.beforeRequest w.deployment w.ownerToken
  if decision.canFetch then fetchAdmitted w item plan decision.waitSeconds
  else delayRefused w item plan decision

/-! ## The pass -/

/-- What the pass does with a planned item. -/
def workPlanned (w : WorkerConfig) (item : QueueItem) (plan : Option IdListFetchPlan) :
    Program WorkerPassResult :=
  match plan with
  | none => passLimiter w item none
  | some idPlan =>
      match idPlan.blockedUntil with
      | some blockedUntil => do
          releaseOrDelayQueueItem item.requestId (some blockedUntil) (some "id_fetch_reserved")
            (some "id fetch reserved by another worker") .delayed
          pure
            { result item .blocked with
              cooldownUntil := some blockedUntil
              errorCategory := some "id_fetch_reserved" }
      | none =>
          if idPlan.fetchRequest.isNone then do
            let papersTotal ← recordCachedIdList item idPlan
            completeQueueItem item.requestId
            pure { result item .cacheHit with papersTotal := papersTotal }
          else passLimiter w item plan

/-- What the pass does with the item it has claimed. -/
def workClaimed (w : WorkerConfig) (item : QueueItem) : Program WorkerPassResult := do
  let cached ← getReadableCompletedCache item.cacheKey
  match cached.filter fun _ => item.workKind = .fetchMissing with
  | some cached => do
      completeQueueItem item.requestId
      pure { result item .cacheHit with papersTotal := cached.resultCount }
  | none => do
      let plan ← planIdListFetch w item
      workPlanned w item plan

def runOnce (w : WorkerConfig) (targetCacheKeys : Option (List CacheKey)) :
    Program WorkerPassResult := do
  initSchema
  let item ← claimNextQueueItem w.ownerToken w.deployment.settings.queueClaimTimeoutSeconds
    targetCacheKeys
  match item with
  | none => pure { status := .idle }
  | some item => workClaimed w item

end Worker

end Huldra
