import Huldra.Limiter
import Huldra.Worker

/-!
# Harvest — `harvest_oai`: one process walking a resumption chain

A harvest takes the lease of its scope, continues the running job of the scope or starts a new one,
and then fetches page after page: admitted by the limiter, fenced by both leases, committed by one
checkpoint.  It can stop at any operation; the next call finds the job where the last checkpoint
left it.
-/

namespace Huldra

namespace Harvest

/-! ## Local helpers -/

/-- Microseconds of a day. -/
def dayMicroseconds : Int :=
  86400000000

/-- The UTC day of an instant. -/
def utcDay (t : Int) : Int :=
  t / dayMicroseconds

/-- `_normalize_oai_day_datestamp(value)`: the day, or the text itself where it is no date. -/
def normalizeOaiDayDatestamp (d : Deployment) (value : Option String) : Option OaiDatestamp :=
  match value with
  | none => none
  | some text =>
      let raw := String.ofList (Text.strip text.toList)
      if raw = "" then none
      else
        match d.fromIsoformat raw with
        | some t => some (.day (utcDay t))
        | none => some (.raw raw)

/-- `_normalize_oai_day_datestamp(value, keep_invalid=False)` -/
def validOaiDay (d : Deployment) (value : Option String) : Option Int :=
  match normalizeOaiDayDatestamp d value with
  | some (.day day) => some day
  | _ => none

/-- `_subtract_oai_overlap` on a valid day. -/
def subtractOaiOverlap (day overlapSeconds : Int) : Int :=
  utcDay (day * dayMicroseconds - seconds overlapSeconds)

/-- `_max_datestamp_seen` -/
def maxDatestampSeen (records : List OaiRecord) (current : Option Int) : Option Int :=
  records.foldl
    (fun best record => match record.datestamp with
      | none => best
      | some t =>
          match best with
          | none => some (utcDay t)
          | some b => if b < utcDay t then some (utcDay t) else some b)
    current

/-- `_should_commit_oai_watermark` -/
def shouldCommitOaiWatermark (request : OaiHarvestRequest) : Bool :=
  request.fromDatestamp.isNone && request.untilDatestamp.isNone

/-- `_oai_scope_lease_name` -/
def oaiScopeLeaseName (request : OaiHarvestRequest) : LeaseName :=
  if shouldCommitOaiWatermark request then
    .oaiHarvest (.sharedWatermarkWriter request.metadataPrefix (oaiSetKey request.setSpec))
  else
    .oaiHarvest (.window request.metadataPrefix (oaiSetKey request.setSpec)
      (request.fromDatestamp.getD "") (request.untilDatestamp.getD "") request.mode)

/-- `_oai_token_error` -/
def oaiTokenError (recordsTotal : Nat) (consumedTokenHash nextTokenHash : Option String)
    (consumedTokenHashes : List String) : Option String :=
  match nextTokenHash with
  | none => none
  | some next =>
      if consumedTokenHash = some next then some "repeated_resumption_token"
      else if consumedTokenHashes.contains next then some "resumption_token_cycle"
      else if recordsTotal = 0 then some "no_progress"
      else none

/-- `build_list_records_params` -/
def buildListRecordsParams (request : OaiHarvestRequest) (fromDatestamp untilDatestamp :
    Option OaiDatestamp) (resumptionToken : Option ResumptionToken) : OaiRequestParams :=
  match resumptionToken with
  | some token => .resumption token
  | none =>
      .initial request.metadataPrefix (request.setSpec.filter (· ≠ "")) fromDatestamp untilDatestamp

/-! ## The state of a harvest -/

/-- What stays fixed while one call walks its job. -/
structure Job where
  deployment : Deployment
  scopeLeaseName : LeaseName
  scopeOwner : OwnerToken
  scopeLeaseSeconds : Int
  harvestId : Uuid
  effectiveRequest : OaiHarvestRequest
  fromDatestamp : Option OaiDatestamp
  untilDatestamp : Option OaiDatestamp
  deadlineAt : Int

/-- The local variables that move from page to page. -/
structure Cursor where
  resumptionToken : Option ResumptionToken
  pageIndex : Nat := 0
  requestsTotal : Nat := 0
  recordsProcessed : Nat := 0
  papersUpserted : Nat := 0
  deletedRecords : Nat := 0
  responseWatermark : Option Int := none
  maxDatestampSeen : Option Int := none
  finishedPaging : Bool := false
  consumedTokenHashes : List String := []
  deriving DecidableEq

namespace Job

def ownerToken (j : Job) : OwnerToken :=
  .oai j.harvestId

def hashToken (j : Job) (token : Option ResumptionToken) : Option String :=
  token.map fun t => j.deployment.sha256 t.text

/-- `_oai_budget_error` at a clock reading. -/
def budgetError (j : Job) (c : Cursor) (now : Int) : Option String :=
  if j.effectiveRequest.maxPages ≤ c.pageIndex then some "page_budget_exceeded"
  else if j.effectiveRequest.maxRequests ≤ c.requestsTotal then some "request_budget_exceeded"
  else if j.deadlineAt ≤ now then some "runtime_budget_exceeded"
  else none

/-- The arguments of `finish`. -/
structure Ending where
  status : OaiStatus
  pagesTotal : Nat
  currentWatermark : Option OaiDatestamp
  token : Option ResumptionToken
  errorCategory : Option String
  errorMessage : Option String

/-- `finish(…)`: write the terminal state of the job from the local variables. -/
def finish (j : Job) (c : Cursor) (e : Ending) : Program OaiHarvestResult :=
  completeOaiHarvestJob fun completed =>
    { harvestId := j.harvestId
      status := e.status
      recordsProcessed := c.recordsProcessed
      papersUpserted := c.papersUpserted
      deletedRecords := c.deletedRecords
      pagesTotal := e.pagesTotal
      currentWatermark := e.currentWatermark
      resumptionToken := e.token
      errorCategory := e.errorCategory
      errorMessage := e.errorMessage
      completed := completed }

/-- `finish` with the cursor where it stands. -/
def finishAt (j : Job) (c : Cursor) (status : OaiStatus) (pagesTotal : Nat)
    (errorCategory errorMessage : String) : Program OaiHarvestResult :=
  j.finish c
    { status := status
      pagesTotal := pagesTotal
      currentWatermark := c.responseWatermark.map .day
      token := c.resumptionToken
      errorCategory := some errorCategory
      errorMessage := some errorMessage }

def blockedResult (j : Job) (message : String) : OaiHarvestResult :=
  { harvestId := some j.harvestId
    status := .blocked
    metadataPrefix := j.effectiveRequest.metadataPrefix
    setSpec := j.effectiveRequest.setSpec
    mode := j.effectiveRequest.mode
    errorCategory := some "harvest_in_progress"
    errorMessage := some message }

/-- `ownership_lost()`: report, and write nothing. -/
def ownershipLost (j : Job) : Program OaiHarvestResult := do
  let message := "OAI harvest ownership changed before network I/O"
  let current ← getOaiHarvestResult j.harvestId
  match current with
  | none => pure (j.blockedResult message)
  | some current =>
      if current.status ≠ .running then pure current
      else
        pure
          { current with
            status := .blocked
            errorCategory := some "harvest_in_progress"
            errorMessage := some message }

def params (j : Job) (c : Cursor) : OaiRequestParams :=
  buildListRecordsParams j.effectiveRequest j.fromDatestamp j.untilDatestamp c.resumptionToken

/-- Record a page that was not fetched, and finish one page further. -/
def recordAndFinish (j : Job) (c : Cursor) (status : OaiStatus) (errorCategory pageMessage
    message : String) : Program OaiHarvestResult := do
  recordOaiPage j.harvestId c.pageIndex (j.params c) status (j.hashToken c.resumptionToken)
    (some errorCategory) (some pageMessage)
  j.finishAt c status (c.pageIndex + 1) errorCategory message

/-- Give the upstream lease back and finish over the budget. -/
def releaseAndFinish (j : Job) (c : Cursor) (errorCategory message : String) :
    Program OaiHarvestResult := do
  releaseLease Limiter.leaseName j.ownerToken
  j.finishAt c .budgetExceeded c.pageIndex errorCategory message

/-! ## One page -/

/-- How one round of the loop ends. -/
inductive Round where
  | done (result : OaiHarvestResult)
  | next (cursor : Cursor)

/-- The cursor after a committed page. -/
def advance (j : Job) (c : Cursor) (page : OaiPmhPage) (counts : Nat × Nat × Nat) : Cursor :=
  { c with
    recordsProcessed := c.recordsProcessed + counts.1
    papersUpserted := c.papersUpserted + counts.2.1
    deletedRecords := c.deletedRecords + counts.2.2
    responseWatermark :=
      (validOaiDay j.deployment page.responseDate).or c.responseWatermark
    maxDatestampSeen := Harvest.maxDatestampSeen page.records c.maxDatestampSeen
    pageIndex := c.pageIndex + 1
    consumedTokenHashes :=
      match j.hashToken c.resumptionToken with
      | some consumed => c.consumedTokenHashes ++ [consumed]
      | none => c.consumedTokenHashes
    resumptionToken := page.resumptionToken
    finishedPaging := page.resumptionToken.isNone }

def tokenError (j : Job) (c : Cursor) (page : OaiPmhPage) : Option String :=
  oaiTokenError page.records.length (j.hashToken c.resumptionToken)
    (j.hashToken page.resumptionToken) c.consumedTokenHashes

def checkpointOf (j : Job) (c : Cursor) (page : OaiPmhPage) (timestamp : Int) :
    OaiTables.Checkpoint :=
  { harvestId := j.harvestId
    pageIndex := c.pageIndex
    requestParams := j.params c
    records := page.records
    responseDate := page.responseDate
    consumedResumptionToken := c.resumptionToken
    consumedResumptionTokenHash := j.hashToken c.resumptionToken
    nextResumptionToken := page.resumptionToken
    nextResumptionTokenHash := j.hashToken page.resumptionToken
    lastResponseDate := (validOaiDay j.deployment page.responseDate).or c.responseWatermark
    lastDatestampSeen := Harvest.maxDatestampSeen page.records c.maxDatestampSeen
    terminalErrorCategory := j.tokenError c page
    terminalErrorMessage := (j.tokenError c page).map Worker.spaced
    timestamp := timestamp }

/-- A page has arrived: commit it, report the request, and move on or stop at a token error. -/
def commitPage (j : Job) (c : Cursor) (page : OaiPmhPage) : Program Round := do
  let counts ← tryExceptException (checkpointOaiPage (j.checkpointOf c page)) fun e => do
    Limiter.afterFailure j.ownerToken none ("OAI checkpoint failed: " ++ e.message)
    .raise e
  Limiter.afterSuccess j.ownerToken 200
  let moved := j.advance c page counts
  match j.tokenError c page with
  | some error => do
      let result ← j.finishAt moved .failed moved.pageIndex error (Worker.spaced error)
      pure (.done result)
  | none => pure (.next moved)

/-- The `except` clauses of the fetch. -/
def onFetchError (j : Job) (c : Cursor) : Exn → Program Round
  | .rateLimitedError retryAfter message statusCode => do
      let cooldownUntil ← Limiter.afterRateLimit j.deployment j.ownerToken retryAfter statusCode
        (some message)
      let result ← j.recordAndFinish c .rateLimited "rate_limited" message
        (message ++ "; cooldown_until=" ++ j.deployment.isoformat cooldownUntil)
      pure (.done result)
  | .transientFetchError message statusCode => do
      Limiter.afterFailure j.ownerToken statusCode message
      let result ← j.recordAndFinish c .transientFailure "transient" message message
      pure (.done result)
  | .nonRetryableFetchError message statusCode => do
      Limiter.afterFailure j.ownerToken statusCode message
      let result ← j.recordAndFinish c .failed "non_retryable" message message
      pure (.done result)
  | e => .raise e

/-- `fetcher.list_records(…)` -/
def listRecords (j : Job) (c : Cursor) (timeoutSeconds : Int) : Program OaiPmhPage := do
  perform (.upstream (.listRecordsBegin
    { harvestId := j.harvestId
      pageIndex := c.pageIndex
      params := j.params c
      timeoutSeconds := timeoutSeconds }))
  perform (.upstream .listRecordsEnd)

def expiredMessage : String :=
  "runtime budget expired before the next request"

/-- Both leases are fenced: fetch unless the deadline has passed meanwhile. -/
def fetchFenced (j : Job) (c : Cursor) (requestTimeout : Int) : Program Round := do
  let now ← utcNow
  if j.deadlineAt - now ≤ 0 then do
    let result ← j.releaseAndFinish c "runtime_budget_exceeded" expiredMessage
    pure (.done result)
  else
    (j.listRecords c (min requestTimeout (j.deadlineAt - now))).handle (j.commitPage c)
      (j.onFetchError c)

/-- The request is counted: fence both leases for the time the fetch may take. -/
def fenceAndFetch (j : Job) (c : Cursor) : Program Round := do
  let now ← utcNow
  if j.deadlineAt - now ≤ 0 then do
    let result ← j.releaseAndFinish c "runtime_budget_exceeded" expiredMessage
    pure (.done result)
  else do
    let settings := j.deployment.settings
    let requestTimeout := min settings.requestTimeoutSeconds (j.deadlineAt - now)
    let postFetchLeaseSeconds := max settings.leaseTimeoutSeconds
      (ceilSeconds (requestTimeout + j.deployment.storeTimeout + seconds 5))
    let renewed ← renewLeasesIfOwned
      [⟨j.scopeLeaseName, j.scopeOwner, j.scopeLeaseSeconds⟩,
        ⟨Limiter.leaseName, j.ownerToken, postFetchLeaseSeconds⟩]
    if renewed = false then do
      releaseLease Limiter.leaseName j.ownerToken
      let result ← j.ownershipLost
      pure (.done result)
    else j.fetchFenced c requestTimeout

/-- The wait is over: check the budgets again and count the request. -/
def countAndFetch (j : Job) (c : Cursor) : Program Round := do
  let now ← utcNow
  match j.budgetError c now with
  | some error => do
      let result ← j.releaseAndFinish c error (Worker.spaced error)
      pure (.done result)
  | none => do
      let requestsTotal ← recordOaiRequestStarted j.harvestId
      j.fenceAndFetch { c with requestsTotal := requestsTotal }

/-- The limiter has admitted the page: wait, unless the deadline ends the wait. -/
def fetchAdmitted (j : Job) (c : Cursor) (waitSeconds : Int) : Program Round := do
  let now ← utcNow
  if j.deadlineAt ≤ now + waitSeconds then do
    let result ← j.releaseAndFinish c "runtime_budget_exceeded"
      "runtime budget would expire before the next request"
    pure (.done result)
  else do
    if 0 < waitSeconds then timeSleep waitSeconds else pure ()
    j.countAndFetch c

/-- The limiter has refused the page. -/
def finishRefused (j : Job) (c : Cursor) (decision : RateLimitDecision) :
    Program OaiHarvestResult :=
  let status : OaiStatus :=
    if decision.blockedReason = some "cooldown" then .coolingDown else .blocked
  let reason := decision.blockedReason.getD ""
  j.recordAndFinish c status reason reason reason

/-- One round of `while not finished_paging`. -/
def harvestPage (j : Job) (c : Cursor) : Program Round := do
  let renewed ← renewLeaseIfOwned j.scopeLeaseName j.scopeOwner j.scopeLeaseSeconds
  if renewed = false then do
    let result ← j.ownershipLost
    pure (.done result)
  else do
    let now ← utcNow
    match j.budgetError c now with
    | some error => do
        let result ← j.finishAt c .budgetExceeded c.pageIndex error (Worker.spaced error)
        pure (.done result)
    | none => do
        let decision ← Limiter.beforeRequest j.deployment j.ownerToken
        if decision.canFetch then j.fetchAdmitted c decision.waitSeconds
        else do
          let result ← j.finishRefused c decision
          pure (.done result)

/-! ## The whole job -/

/-- After the last page: the watermark, then the terminal state. -/
def finishCompleted (j : Job) (c : Cursor) : Program OaiHarvestResult := do
  let unbounded := shouldCommitOaiWatermark j.effectiveRequest
  let newest := (if unbounded then c.responseWatermark else c.maxDatestampSeen).or
    c.maxDatestampSeen
  if unbounded then
    setOaiWatermark (watermarkKey j.effectiveRequest) c.responseWatermark c.maxDatestampSeen
      j.harvestId
  else pure ()
  j.finish c
    { status := .completed
      pagesTotal := c.pageIndex
      currentWatermark := (newest.map .day).or j.fromDatestamp
      token := none
      errorCategory := none
      errorMessage := none }

/-- `while not finished_paging: …`.  Each round commits a page, and the page budget stops the
first round that may not; `pagesLeft` bounds the pages still to come. -/
def harvestPages (j : Job) (pagesLeft : Nat) (c : Cursor) : Program OaiHarvestResult :=
  if c.finishedPaging then j.finishCompleted c
  else do
    let round ← j.harvestPage c
    match round with
    | .done result => pure result
    | .next moved =>
        match pagesLeft with
        | 0 => .raise (.runtimeError "the page budget has no room for another page")
        | pagesLeft + 1 => j.harvestPages pagesLeft moved

end Job

/-! ## Starting -/

/-- `_oai_start_datestamp` -/
def oaiStartDatestamp (d : Deployment) (request : OaiHarvestRequest) :
    Program (Option OaiDatestamp) :=
  if request.fromDatestamp.any (· ≠ "") then
    pure (normalizeOaiDayDatestamp d request.fromDatestamp)
  else if request.mode ≠ .incremental then pure none
  else do
    let watermark ← getOaiWatermark (watermarkKey request)
    match watermark with
    | none => pure none
    | some row =>
        pure ((row.lastResponseDate.or row.lastDatestampSeen).map fun day =>
          .day
            (if d.settings.oaiOverlapSeconds ≤ 0 then day
            else subtractOaiOverlap day d.settings.oaiOverlapSeconds))

/-- The job this call works on, and where it stands. -/
structure Start where
  harvestId : Uuid
  effectiveRequest : OaiHarvestRequest
  deadlineAt : Int
  cursor : Cursor
  pendingErrorCategory : Option String := none
  pendingErrorMessage : Option String := none

/-- A new job from this token. -/
def createAndStart (request : OaiHarvestRequest) (resumptionToken : Option ResumptionToken) :
    Program Start := do
  let harvestId ← createOaiHarvestJob request resumptionToken
  let created ← getOaiHarvestResult harvestId
  match created.bind (·.deadlineAt) with
  | none => .raise .assertionError
  | some deadlineAt =>
      pure
        { harvestId := harvestId
          effectiveRequest := request
          deadlineAt := deadlineAt
          cursor := { resumptionToken := resumptionToken } }

/-- A new job, from the explicit token or the one an earlier job of the scope left. -/
def startNew (request : OaiHarvestRequest) : Program Start := do
  let resumptionToken ← match request.resumptionToken with
    | some token => pure (some token)
    | none => getLatestResumableOaiHarvestToken request
  createAndStart request resumptionToken

/-- The running job, where its last checkpoint left it. -/
def startRunning (running : OaiJobRow) : Program Start := do
  let deadlineAt ← match running.deadlineAt with
    | some deadlineAt => pure deadlineAt
    | none => do
        let now ← utcNow
        ensureOaiHarvestDeadline running.harvestId (now + running.request.runtimeBudgetSeconds)
  pure
    { harvestId := running.harvestId
      effectiveRequest := running.request
      deadlineAt := deadlineAt
      cursor :=
        { resumptionToken := running.resumptionToken
          pageIndex := running.pagesTotal
          requestsTotal := running.requestsTotal
          recordsProcessed := running.recordsProcessed
          papersUpserted := running.papersUpserted
          deletedRecords := running.deletedRecords
          responseWatermark := running.lastResponseDate
          maxDatestampSeen := running.lastDatestampSeen
          finishedPaging := running.finishedPaging }
      pendingErrorCategory := running.errorCategory
      pendingErrorMessage := running.errorMessage }

/-- What stays fixed from here on. -/
def jobOf (d : Deployment) (scopeLeaseName : LeaseName) (scopeOwner : OwnerToken)
    (scopeLeaseSeconds : Int) (start : Start) (fromDatestamp : Option OaiDatestamp) : Job :=
  { deployment := d
    scopeLeaseName := scopeLeaseName
    scopeOwner := scopeOwner
    scopeLeaseSeconds := scopeLeaseSeconds
    harvestId := start.harvestId
    effectiveRequest := start.effectiveRequest
    fromDatestamp := fromDatestamp
    untilDatestamp := normalizeOaiDayDatestamp d start.effectiveRequest.untilDatestamp
    deadlineAt := start.deadlineAt }

/-- The consumed tokens are read, and the pending token error or the page loop follows. -/
def walk (job : Job) (start : Start) : Program OaiHarvestResult := do
  let consumedTokenHashes ← getOaiConsumedTokenHashes start.harvestId
  let cursor := { start.cursor with consumedTokenHashes := consumedTokenHashes }
  match start.pendingErrorCategory with
  | some category =>
      job.finishAt cursor .failed cursor.pageIndex category
        (start.pendingErrorMessage.getD (Worker.spaced category))
  | none => job.harvestPages (start.effectiveRequest.maxPages - cursor.pageIndex) cursor

/-- `_harvest_oai_owned` from the point where its job is known. -/
def harvestFrom (d : Deployment) (scopeLeaseName : LeaseName) (scopeOwner : OwnerToken)
    (scopeLeaseSeconds : Int) (start : Start) : Program OaiHarvestResult := do
  let fromDatestamp ← match start.cursor.resumptionToken with
    | some _ => pure none
    | none => oaiStartDatestamp d start.effectiveRequest
  walk (jobOf d scopeLeaseName scopeOwner scopeLeaseSeconds start fromDatestamp) start

/-- `_harvest_oai_owned` -/
def harvestOaiOwned (d : Deployment) (request : OaiHarvestRequest) (scopeLeaseName : LeaseName)
    (scopeOwner : OwnerToken) (scopeLeaseSeconds : Int) : Program OaiHarvestResult := do
  let running ← getRunningOaiHarvest request
  let start ← match running with
    | none => startNew request
    | some running => startRunning running
  harvestFrom d scopeLeaseName scopeOwner scopeLeaseSeconds start

/-- The answer when another process holds the scope. -/
def harvestInProgress (request : OaiHarvestRequest) : Program OaiHarvestResult := do
  let starting : OaiHarvestResult :=
    { harvestId := none
      status := .blocked
      metadataPrefix := request.metadataPrefix
      setSpec := request.setSpec
      mode := request.mode
      errorCategory := some "harvest_in_progress"
      errorMessage := some "an OAI harvest for this scope is already starting" }
  let running ← getRunningOaiHarvest request
  match running with
  | none => pure starting
  | some running => do
      let active ← getOaiHarvestResult running.harvestId
      match active with
      | none => pure starting
      | some active =>
          pure
            { active with
              status := .blocked
              errorCategory := some "harvest_in_progress"
              errorMessage := some "an OAI harvest for this scope is already running" }

def scopeLeaseSeconds (d : Deployment) : Int :=
  max d.settings.leaseTimeoutSeconds
    (ceilSeconds (d.settings.requestTimeoutSeconds + d.settings.requestIntervalSeconds +
      d.storeTimeout + seconds 10))

/-- `harvest_oai` -/
def harvestOai (d : Deployment) (request : OaiHarvestRequest) : Program OaiHarvestResult := do
  let scopeLeaseName := oaiScopeLeaseName request
  let scopeUuid ← uuid4
  let scopeOwner : OwnerToken := .oaiHarvest scopeUuid
  let acquired ← acquireLease scopeLeaseName scopeOwner (scopeLeaseSeconds d)
  if acquired = false then harvestInProgress request
  else
    (harvestOaiOwned d request scopeLeaseName scopeOwner (scopeLeaseSeconds d)).tryFinally
      (releaseLease scopeLeaseName scopeOwner)

end Harvest

end Huldra
