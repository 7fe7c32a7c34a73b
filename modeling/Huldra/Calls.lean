import Huldra.Store

/-!
# Calls — the store's methods as the programs call them

A method that reads the clock before its transaction is two operations; one that reads it inside
is one.  The names are those of `HuldraStore`.
-/

namespace Huldra

open Process (Prog)

abbrev Program := Prog huldra

/-- Ask for one operation. -/
def perform (o : Op) : Program o.Res :=
  @Prog.call huldra o

/-- One settings value, the store's busy timeout, and the library functions the harvest uses:
`fromIsoformat` is `datetime.fromisoformat` in UTC, `none` where it raises `ValueError`.  A wait
without end is interrupted after as many rounds as `patience` says. -/
structure Deployment where
  settings : HuldraSettings := .defaults
  storeTimeout : Int := seconds 30
  sha256 : String → String := id
  fromIsoformat : String → Option Int := fun _ => none
  isoformat : Int → String := fun _ => ""
  patience : Nat := 0

/-- `except Exception as e: onRaise e` -/
def tryExceptException {β : Type} (p : Program β) (onRaise : Exn → Program β) : Program β :=
  p.tryExcept fun e => if e = Exn.interrupt then .raise e else onRaise e

/-! ## Clock -/

def utcNow : Program Int :=
  perform (.clock .utcNow)

def uuid4 : Program Uuid :=
  perform (.clock .uuid4)

/-- `time.sleep(duration)` -/
def timeSleep (duration : Int) : Program Unit := do
  let wakeAt ← perform (.clock (.sleep duration))
  perform (.clock (.awake wakeAt))

/-! ## Leases -/

def acquireLease (name : LeaseName) (owner : OwnerToken) (timeoutSeconds : Int) : Program Bool :=
  perform (.lease (.acquireLease name owner timeoutSeconds))

def renewLeasesIfOwned (renewals : List LeaseRenewal) : Program Bool :=
  perform (.lease (.renewLeasesIfOwned renewals))

def renewLeaseIfOwned (name : LeaseName) (owner : OwnerToken) (timeoutSeconds : Int) :
    Program Bool :=
  renewLeasesIfOwned [⟨name, owner, timeoutSeconds⟩]

def releaseLease (name : LeaseName) (owner : OwnerToken) : Program Unit :=
  perform (.lease (.releaseLease name owner))

/-! ## Rate state and diagnostics -/

def getRateState (name : String) : Program RateState :=
  perform (.rate (.getRateState name))

def setRateState (state : RateState) : Program Unit :=
  perform (.rate (.setRateState state))

def recordEvent (event : DiagnosticEvent) : Program Unit :=
  perform (.rate (.recordEvent event))

/-! ## Queue -/

def initSchema : Program Unit :=
  perform .initSchema

def enqueueRequestForWork (request : ArxivRequest) (cacheKey : CacheKey)
    (workKind : QueueWorkKind) (upstreamBudgetId : Option Uuid)
    (defaultTimeoutSeconds : Timeout) :
    Program (QueueItem × Bool) := do
  let now ← utcNow
  perform (.queue (.enqueueRequestForWork request cacheKey workKind upstreamBudgetId
    defaultTimeoutSeconds now))

def enqueueRefreshIfDue (request : ArxivRequest) (cacheKey : CacheKey)
    (defaultTimeoutSeconds : Timeout) : Program (Option QueueItem × Bool) := do
  let current ← utcNow
  perform (.enqueueRefreshIfDue request cacheKey defaultTimeoutSeconds current)

def claimNextQueueItem (owner : OwnerToken) (claimTimeoutSeconds : Int)
    (cacheKeys : Option (List CacheKey)) : Program (Option QueueItem) :=
  if cacheKeys = some [] then pure none
  else perform (.queue (.claimNextQueueItem owner claimTimeoutSeconds cacheKeys))

def completeQueueItem (requestId : Uuid) : Program Unit := do
  let timestamp ← utcNow
  perform (.queue (.completeQueueItem requestId timestamp))

def releaseOrDelayQueueItem (requestId : Uuid) (nextAttemptAt : Option Int)
    (errorCategory errorMessage : Option String) (status : RequestStatus) : Program Unit := do
  let timestamp ← utcNow
  perform (.queue (.releaseOrDelayQueueItem requestId nextAttemptAt errorCategory errorMessage
    status timestamp))

def acquireIdFetchReservations (arxivIds : List String) (owner : OwnerToken) (requestId : Uuid)
    (ttlSeconds : Int) : Program IdReservationResult :=
  perform (.queue (.acquireIdFetchReservations arxivIds owner requestId ttlSeconds))

def renewIdFetchReservations (arxivIds : List String) (owner : OwnerToken) (ttlSeconds : Int) :
    Program Bool :=
  if arxivIds.isEmpty then pure true
  else perform (.queue (.renewIdFetchReservations arxivIds owner ttlSeconds))

def releaseIdFetchReservations (arxivIds : List String) (owner : OwnerToken) : Program Unit :=
  if arxivIds.isEmpty then pure ()
  else do
    let timestamp ← utcNow
    perform (.queue (.releaseIdFetchReservations arxivIds owner timestamp))

def createUpstreamRequestBudget (maxRequests : Nat) (deadlineAt : Option Int) : Program Uuid :=
  if maxRequests = 0 then .raise (.valueError "max_requests must be positive")
  else do
    let timestamp ← utcNow
    perform (.queue (.createUpstreamRequestBudget maxRequests deadlineAt timestamp))

def reserveQueueItemUpstreamRequest (requestId : Uuid) : Program (Option String) :=
  perform (.queue (.reserveQueueItemUpstreamRequest requestId))

def checkQueueItemUpstreamRequestDeadlines (requestId : Uuid) : Program (Option String) :=
  perform (.queue (.checkQueueItemUpstreamRequestDeadlines requestId))

def queueItemUpstreamDeadline (requestId : Uuid) : Program (Option Int) :=
  perform (.queue (.queueItemUpstreamDeadline requestId))

def failActiveUpstreamBudgetItems (budgetId : Uuid) (errorCategory errorMessage : String) :
    Program Unit := do
  let timestamp ← utcNow
  perform (.queue (.failActiveUpstreamBudgetItems budgetId errorCategory errorMessage timestamp))

def getQueueItem (requestId : Uuid) : Program (Option QueueItem) :=
  perform (.queue (.getQueueItem requestId))

def renewWorkerFetchOwnership (requestId : Uuid) (owner : OwnerToken) (leaseName : LeaseName)
    (ttlSeconds : Int) (reservedIds : List String) : Program (Option String) :=
  perform (.renewWorkerFetchOwnership requestId owner leaseName ttlSeconds reservedIds)

/-! ## Library -/

def getCacheEntry (cacheKey : CacheKey) : Program (Option CacheEntry) :=
  perform (.library (.getCacheEntry cacheKey))

def getCachedPapers (cacheKey : CacheKey) : Program (List ArxivPaper) :=
  perform (.library (.getCachedPapers cacheKey))

/-- `_completed_cache_integrity_failure`: three reads, each of its own moment. -/
def completedCacheIntegrityFailure (cacheKey : CacheKey) (entry : CacheEntry) :
    Program (Option String) := do
  let matchTotal ← perform (.library (.matchCount cacheKey))
  let joinedTotal ← perform (.library (.joinedCount cacheKey))
  let positions ← perform (.library (.matchPositions cacheKey))
  if matchTotal ≠ entry.resultCount then pure (some "match_count_mismatch")
  else if joinedTotal ≠ entry.resultCount then pure (some "paper_join_mismatch")
  else if positions ≠ List.range entry.resultCount then pure (some "sort_position_gap")
  else pure none

def getReadableCompletedCache (cacheKey : CacheKey) : Program (Option CacheEntry) := do
  let entry ← getCacheEntry cacheKey
  match entry with
  | none => pure none
  | some entry =>
      if entry.status ≠ .completed then pure none
      else do
        let reason ← completedCacheIntegrityFailure cacheKey entry
        match reason with
        | none => pure (some entry)
        | some reason => do
            recordEvent (.cacheIntegrityFailure cacheKey reason entry.resultCount)
            pure none

def getPapersByIds (arxivIds : List String) : Program (List (String × ArxivPaper)) :=
  if arxivIds.isEmpty then pure []
  else perform (.library (.getPapersByIds arxivIds))

def recordCompletedCacheEntry (cacheKey : CacheKey) (request : ArxivRequest)
    (papers : List ArxivPaper) (totalResults : Option Nat) (upstreamStatus : Int)
    (upstreamRequestCount : Nat) : Program Unit := do
  let requestedAt ← utcNow
  let completedAt ← utcNow
  perform (.library (.recordCompletedCacheEntry
    { cacheKey := cacheKey
      request := request
      papers := papers
      totalResults := totalResults
      upstreamStatus := upstreamStatus
      upstreamRequestCount := upstreamRequestCount
      requestedAt := requestedAt
      completedAt := completedAt }))

def recordCacheFailure (cacheKey : CacheKey) (request : ArxivRequest)
    (errorCategory errorMessage : String) (status : CacheStatus) (cooldownUntil : Option Int)
    (upstreamStatus : Option Int) (upstreamRequestCount : Nat) : Program Unit := do
  let requestedAt ← utcNow
  perform (.library (.recordCacheFailure
    { cacheKey := cacheKey
      request := request
      errorCategory := errorCategory
      errorMessage := errorMessage
      status := status
      cooldownUntil := cooldownUntil
      upstreamStatus := upstreamStatus
      upstreamRequestCount := upstreamRequestCount
      requestedAt := requestedAt }))

def recordRateLimited (cacheKey : CacheKey) (request : ArxivRequest) (cooldownUntil : Int)
    (upstreamStatus : Int) (errorMessage : String) : Program Unit :=
  recordCacheFailure cacheKey request "rate_limited" errorMessage .rateLimited
    (some cooldownUntil) (some upstreamStatus) 1

/-! ## Harvest jobs -/

def getRunningOaiHarvest (request : OaiHarvestRequest) : Program (Option OaiJobRow) :=
  perform (.oai (.getRunningOaiHarvest request))

def getLatestResumableOaiHarvestToken (request : OaiHarvestRequest) :
    Program (Option ResumptionToken) :=
  perform (.oai (.getLatestResumableOaiHarvestToken request))

def createOaiHarvestJob (request : OaiHarvestRequest)
    (resumptionToken : Option ResumptionToken) : Program Uuid := do
  let started ← utcNow
  perform (.oai (.createOaiHarvestJob request resumptionToken started))

def getOaiHarvestResult (harvestId : Uuid) : Program (Option OaiHarvestResult) :=
  perform (.oai (.getOaiHarvestResult harvestId))

def ensureOaiHarvestDeadline (harvestId : Uuid) (deadlineAt : Int) : Program Int := do
  let timestamp ← utcNow
  perform (.oai (.ensureOaiHarvestDeadline harvestId deadlineAt timestamp))

def getOaiConsumedTokenHashes (harvestId : Uuid) : Program (List String) :=
  perform (.oai (.getOaiConsumedTokenHashes harvestId))

def recordOaiRequestStarted (harvestId : Uuid) : Program Nat := do
  let timestamp ← utcNow
  perform (.oai (.recordOaiRequestStarted harvestId timestamp))

def recordOaiPage (harvestId : Uuid) (pageIndex : Nat) (requestParams : OaiRequestParams)
    (status : OaiStatus) (resumptionTokenHash : Option String)
    (errorCategory errorMessage : Option String) : Program Unit := do
  let timestamp ← utcNow
  perform (.oai (.recordOaiPage
    { harvestId := harvestId
      pageIndex := pageIndex
      requestParams := requestParams
      resumptionTokenHash := resumptionTokenHash
      status := status
      errorCategory := errorCategory
      errorMessage := truncateMessage errorMessage
      createdAt := timestamp }))

def checkpointOaiPage (checkpoint : Int → OaiTables.Checkpoint) : Program (Nat × Nat × Nat) := do
  let timestamp ← utcNow
  perform (.checkpointOaiPage (checkpoint timestamp))

def getOaiWatermark (key : WatermarkKey) : Program (Option OaiWatermarkRow) :=
  perform (.oai (.getOaiWatermark key))

def setOaiWatermark (key : WatermarkKey) (lastResponseDate lastDatestampSeen : Option Int)
    (harvestId : Uuid) : Program Unit := do
  let timestamp ← utcNow
  perform (.oai (.setOaiWatermark key lastResponseDate lastDatestampSeen harvestId timestamp))

/-- `complete_oai_harvest_job`: the write, and the read that answers. -/
def completeOaiHarvestJob (completion : Int → OaiTables.Completion) :
    Program OaiHarvestResult := do
  let completed ← utcNow
  let write := completion completed
  perform (.oai (.completeOaiHarvestJob write))
  let result ← getOaiHarvestResult write.harvestId
  match result with
  | some result => pure result
  | none => .raise .assertionError

end Huldra
