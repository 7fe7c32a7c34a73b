import Huldra.Worker

/-!
# Broker — `ensure`: one caller asking for one cached window

`ensure` serves a readable cache entry, composes one from stored papers, or queues the fetch and
possibly waits for it.  It holds no transaction across its reads, so workers and other callers run
between any two of them.
-/

namespace Huldra

/-- `ArxivResult` -/
structure ArxivResult where
  servingMode : ReadinessMode
  status : String
  cacheKey : CacheKey
  requestId : Option Uuid := none
  papers : List ArxivPaper := []
  papersTotal : Nat := 0
  cachedPapersTotal : Nat := 0
  totalResults : Option Nat := none
  coverageStatus : CoverageStatus := .unknown
  cacheHit : Bool := false
  stale : Bool := false
  cacheReadable : Bool := false
  mature : Bool := true
  ready : Bool := false
  analysisReady : Bool := false
  maturityApplicable : Bool := false
  maturityCutoff : Option Int := none
  cooldownUntil : Option Int := none
  blockedReason : Option String := none
  errorCategory : Option String := none
  errorMessage : Option String := none
  completedAt : Option Int := none
  refreshAfter : Option Int := none
  queuedAt : Option Int := none
  upstreamStatus : Option Int := none
  deriving DecidableEq, Repr

/-- `ArxivRawInspectionResult` -/
structure ArxivRawInspectionResult where
  status : String
  cacheKey : CacheKey
  papers : List ArxivPaper := []
  papersTotal : Nat := 0
  totalResults : Option Nat := none
  coverageStatus : CoverageStatus := .unknown
  cacheHit : Bool := false
  cacheReadable : Bool := false
  cooldownUntil : Option Int := none
  blockedReason : Option String := none
  errorCategory : Option String := none
  errorMessage : Option String := none
  completedAt : Option Int := none
  upstreamStatus : Option Int := none
  deriving DecidableEq, Repr

/-- `_Readiness` -/
structure Readiness where
  analysisReady : Bool
  mature : Bool
  maturityApplicable : Bool
  maturityCutoff : Option Int
  blockedReason : Option String
  deriving DecidableEq, Repr

namespace Broker

/-! ## Readiness -/

/-- `_is_pure_id_list_request`, the broker's copy. -/
def isPureIdListRequest (request : ArxivRequest) : Bool :=
  !request.idList.isEmpty && request.searchQuery.isNone && request.submittedStart.isNone &&
    request.submittedEnd.isNone && request.start = 0 && request.sortBy = .submittedDate &&
    request.sortOrder = .descending && request.idList.length ≤ request.maxResults

def microsecondsPerDay : Int :=
  86400000000

/-- Readiness where no maturity cutoff applies. -/
def alwaysReady : Readiness :=
  { analysisReady := true
    mature := true
    maturityApplicable := false
    maturityCutoff := none
    blockedReason := none }

/-- The start of the UTC day `lagDays - 1` days before today. -/
def maturityCutoff (lagDays now : Int) : Int :=
  (now / microsecondsPerDay - max 0 (lagDays - 1)) * microsecondsPerDay

def maturityLagDays (request : ArxivRequest) (settings : HuldraSettings) : Int :=
  request.maturityLagDays.getD settings.maturityLagDays

/-- `_evaluate_readiness`: the clock is read only where a cutoff applies. -/
def evaluateReadiness (request : ArxivRequest) (settings : HuldraSettings) :
    Program Readiness :=
  match request.submittedStart, request.submittedEnd with
  | some _, some submittedEnd =>
      let lagDays := maturityLagDays request settings
      if lagDays ≤ 0 then pure alwaysReady
      else do
        let now ← utcNow
        let cutoff := maturityCutoff lagDays now
        let mature := decide (submittedEnd ≤ cutoff)
        pure
          { analysisReady := mature
            mature := mature
            maturityApplicable := true
            maturityCutoff := some cutoff
            blockedReason := if mature then none else some "immature_window" }
  | _, _ => pure alwaysReady

/-! ## Results -/

/-- `_result_from_completed_cache` with `readiness_request=request`. -/
def resultFromCompletedCache (d : Deployment) (request : ArxivRequest) (cacheKey : CacheKey)
    (entry : CacheEntry) (requestId : Option Uuid) : Program ArxivResult := do
  let papers ← getCachedPapers cacheKey
  let readiness ← evaluateReadiness request d.settings
  let accepted := decide (request.readiness = .rawCompleted) || readiness.analysisReady
  let exposedPapers := if accepted then papers else []
  pure
    { servingMode := request.readiness
      status := if accepted then "ready" else "immature"
      cacheKey := cacheKey
      requestId := requestId
      papers := exposedPapers
      papersTotal := exposedPapers.length
      cachedPapersTotal := papers.length
      totalResults := entry.totalResults
      coverageStatus := entry.coverageStatus
      cacheHit := true
      cacheReadable := true
      mature := readiness.mature
      ready := accepted
      analysisReady := readiness.analysisReady
      maturityApplicable := readiness.maturityApplicable
      maturityCutoff := readiness.maturityCutoff
      blockedReason := readiness.blockedReason
      errorCategory := entry.errorCategory
      errorMessage := entry.errorMessage
      completedAt := entry.completedAt
      refreshAfter := entry.refreshAfter
      cooldownUntil := entry.cooldownUntil
      upstreamStatus := entry.upstreamStatus }

def rawStatus : CacheStatus → String
  | .completed => "completed"
  | .failed => "failed"
  | .rateLimited => "cooling_down"

/-- `get_result` -/
def getResult (cacheKey : CacheKey) : Program ArxivRawInspectionResult := do
  let entry ← getCacheEntry cacheKey
  match entry with
  | none => pure { status := "cache_miss", cacheKey := cacheKey }
  | some entry =>
      if entry.status = .completed then do
        let readable ← getReadableCompletedCache cacheKey
        match readable with
        | none =>
            pure
              { status := "cache_unreadable"
                cacheKey := cacheKey
                cacheHit := true
                cacheReadable := false
                totalResults := entry.totalResults
                coverageStatus := entry.coverageStatus
                errorCategory := entry.errorCategory
                errorMessage := entry.errorMessage
                completedAt := entry.completedAt
                cooldownUntil := entry.cooldownUntil
                upstreamStatus := entry.upstreamStatus }
        | some _ => do
            let papers ← getCachedPapers cacheKey
            pure
              { status := "ready"
                cacheKey := cacheKey
                papers := papers
                papersTotal := papers.length
                totalResults := entry.totalResults
                coverageStatus := entry.coverageStatus
                cacheHit := true
                cacheReadable := true
                errorCategory := entry.errorCategory
                errorMessage := entry.errorMessage
                completedAt := entry.completedAt
                cooldownUntil := entry.cooldownUntil
                upstreamStatus := entry.upstreamStatus }
      else
        pure
          { status := rawStatus entry.status
            cacheKey := cacheKey
            cooldownUntil := entry.cooldownUntil
            errorCategory := entry.errorCategory
            errorMessage := entry.errorMessage
            upstreamStatus := entry.upstreamStatus }

/-- The delayed item is waiting for the limiter: `_TERMINAL_DELAYED_ERROR_CATEGORIES`. -/
def terminalDelayed (item : QueueItem) : Bool :=
  item.status = .delayed &&
    (item.errorCategory = some "cooldown" || item.errorCategory = some "rate_limited")

/-- `_queue_item_has_terminal_outcome` -/
def queueItemHasTerminalOutcome (item : QueueItem) : Bool :=
  !item.status.pending || terminalDelayed item

/-- `_result_from_terminal_raw_state` -/
def resultFromTerminalRawState (request : ArxivRequest) (raw : ArxivRawInspectionResult)
    (requestId : Uuid) (queueItem : Option QueueItem) : ArxivResult :=
  let bare : ArxivResult :=
    { servingMode := request.readiness
      status := raw.status
      cacheKey := raw.cacheKey
      requestId := some requestId
      papers := raw.papers
      papersTotal := raw.papersTotal
      totalResults := raw.totalResults
      coverageStatus := raw.coverageStatus
      cacheHit := raw.cacheHit
      cacheReadable := raw.cacheReadable
      cooldownUntil := raw.cooldownUntil
      blockedReason := raw.blockedReason
      errorCategory := raw.errorCategory
      errorMessage := raw.errorMessage
      completedAt := raw.completedAt
      upstreamStatus := raw.upstreamStatus }
  match queueItem with
  | none => bare
  | some item =>
      { bare with
        status :=
          if item.status = .failed then "failed"
          else if terminalDelayed item then "cooling_down" else raw.status
        blockedReason :=
          if item.status ≠ .failed ∧ terminalDelayed item = true then item.errorCategory
          else raw.blockedReason
        cooldownUntil := item.nextAttemptAt.or raw.cooldownUntil
        errorCategory := item.errorCategory.or raw.errorCategory
        errorMessage := item.errorMessage.or raw.errorMessage }

/-! ## Composition -/

/-- `_try_compose_cached_id_list`: an entry made of stored papers alone. -/
def tryComposeCachedIdList (d : Deployment) (request : ArxivRequest) (cacheKey : CacheKey) :
    Program (Option ArxivResult) :=
  if isPureIdListRequest request = false then pure none
  else do
    let ids := (request.idList.map Keys.normalizeArxivId).eraseDups
    let papersById ← getPapersByIds ids
    match PaperDict.getAll? papersById ids with
    | none => pure none
    | some papers => do
        recordCompletedCacheEntry cacheKey request papers (some papers.length) 200 0
        let entry ← getReadableCompletedCache cacheKey
        match entry with
        | none => .raise .assertionError
        | some entry => do
            let result ← resultFromCompletedCache d request cacheKey entry none
            pure (some result)

/-! ## Waiting -/

/-- How one look at the store while waiting ends: with a result, or with another look. -/
def waitRound (d : Deployment) (request : ArxivRequest) (cacheKey : CacheKey)
    (requestId : Uuid) : Program (Option ArxivResult) := do
  let entry ← getCacheEntry cacheKey
  match entry with
  | none => pure none
  | some entry => do
      let readable ←
        if entry.status = .completed then getReadableCompletedCache cacheKey else pure none
      match readable with
      | some readable => do
          let result ← resultFromCompletedCache d request cacheKey readable (some requestId)
          pure (some result)
      | none => do
          let item ← getQueueItem requestId
          if item.all queueItemHasTerminalOutcome then do
            let raw ← getResult cacheKey
            pure (some (resultFromTerminalRawState request raw requestId item))
          else pure none

/-- `time.sleep(min(0.1, max(0.01, timeout / 50)))` -/
def waitInterval (timeout : Timeout) : Int :=
  match timeout with
  | ⊤ => 100000
  | (timeout : Int) => min 100000 (max 10000 (timeout / 50))

/-- `while time.monotonic() < deadline: …`, for so many rounds; who waits longer is interrupted. -/
def waitRounds (d : Deployment) (request : ArxivRequest) (cacheKey : CacheKey)
    (requestId : Uuid) (timeout deadline : Timeout) : Nat → Program ArxivResult
  | 0 => .raise .interrupt
  | rounds + 1 => do
      let now ← utcNow
      if (now : Timeout) < deadline then do
        let result ← waitRound d request cacheKey requestId
        match result with
        | some result => pure result
        | none => do
            timeSleep (waitInterval timeout)
            waitRounds d request cacheKey requestId timeout deadline rounds
      else
        pure
          { servingMode := request.readiness
            status := "timeout"
            cacheKey := cacheKey
            requestId := some requestId
            blockedReason := some "timeout" }

/-- The rounds of a wait.  Every round sleeps, so a wait with an end has enough of them. -/
def roundsOf (d : Deployment) (timeout : Timeout) : Nat :=
  match timeout with
  | ⊤ => d.patience
  | (timeout : Int) => (timeout / waitInterval timeout).toNat + 2

/-- `_wait_until_ready` -/
def waitUntilReady (d : Deployment) (request : ArxivRequest) (cacheKey : CacheKey)
    (requestId : Uuid) : Program ArxivResult := do
  let timeout := request.timeoutSeconds.getD d.settings.requestTimeoutSeconds
  let started ← utcNow
  waitRounds d request cacheKey requestId timeout (timeout.map fun timeout => started + timeout)
    (roundsOf d timeout)

/-! ## `ensure` -/

/-- A stale entry is served as it is, and a refresh is queued when one is due. -/
def serveWhileRevalidating (d : Deployment) (request : ArxivRequest) (cacheKey : CacheKey)
    (result : ArxivResult) : Program ArxivResult := do
  let queued ← enqueueRefreshIfDue request cacheKey d.settings.requestTimeoutSeconds
  match queued.1 with
  | none => pure result
  | some item => do
      let reserved ← getCacheEntry cacheKey
      pure
        { result with
          stale := true
          requestId := some item.requestId
          queuedAt := some item.createdAt
          refreshAfter :=
            match reserved with
            | some reserved => reserved.refreshAfter
            | none => result.refreshAfter }

/-- Nothing is stored that answers the request: queue it. -/
def enqueueMissing (d : Deployment) (request : ArxivRequest) (cacheKey : CacheKey) :
    Program ArxivResult := do
  let queued ← enqueueRequestForWork request cacheKey .fetchMissing none
    d.settings.requestTimeoutSeconds
  let item := queued.1
  let rate ← getRateState Limiter.name
  -- `and` is lazy: the clock is read only when a cooldown is stored.
  let coolingDown ← match rate.cooldownUntil with
    | none => pure none
    | some cooldown => do
        let now ← utcNow
        pure (if now < cooldown then some cooldown else none)
  match coolingDown with
  | some cooldown =>
      pure
        { servingMode := request.readiness
          status := "cooling_down"
          cacheKey := cacheKey
          requestId := some item.requestId
          queuedAt := some item.createdAt
          cooldownUntil := some cooldown
          blockedReason := some "cooldown" }
  | none =>
      if request.cachePolicy = .waitUntilReady then
        waitUntilReady d request cacheKey item.requestId
      else
        pure
          { servingMode := request.readiness
            status := "queued"
            cacheKey := cacheKey
            requestId := some item.requestId
            queuedAt := some item.createdAt }

/-- `ensure` -/
def ensure (d : Deployment) (request : ArxivRequest) : Program ArxivResult := do
  let cacheKey := Keys.requestCacheKey request
  let cached ← getReadableCompletedCache cacheKey
  match cached with
  | some cached => do
      let result ← resultFromCompletedCache d request cacheKey cached none
      if request.cachePolicy = .staleWhileRevalidate then
        serveWhileRevalidating d request cacheKey result
      else pure result
  | none => do
      let composed ← tryComposeCachedIdList d request cacheKey
      match composed with
      | some composed => pure composed
      | none =>
          if request.cachePolicy = .cacheOnly then
            pure
              { servingMode := request.readiness
                status := "cache_miss"
                cacheKey := cacheKey
                blockedReason := some "cache_miss" }
          else enqueueMissing d request cacheKey

end Broker

end Huldra
