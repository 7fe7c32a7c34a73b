import Huldra.Process.Amid
import Huldra.Process.System
import Huldra.Store.Leases
import Huldra.Store.Queue
import Huldra.Store.Library
import Huldra.Store.Oai

/-!
# Store — the whole database, and every atomic operation a process performs

An operation is one transaction or one read of the store, one clock reading, or one of the two
ends of an upstream call.  Everything a process does between two operations is local to it.
-/

namespace Huldra

/-- The database, and the counter the fresh identifiers are drawn from. -/
structure Store where
  leases : Leases := fun _ => none
  rates : String → Option RateState := fun _ => none
  queue : QueueTables := {}
  library : LibraryTables := {}
  oai : OaiTables := {}
  nextUuid : Uuid := 0

/-! ## Operations -/

inductive ClockOp where
  | utcNow
  /-- Start a sleep; the answer is the time it ends. -/
  | sleep (duration : Int)
  /-- The end of a sleep, which does not come before that time. -/
  | awake (wakeAt : Int)
  | uuid4
  | jitter (maximum : Int)
  deriving DecidableEq

inductive LeaseOp where
  | acquireLease (name : LeaseName) (ownerToken : OwnerToken) (timeoutSeconds : Int)
  | renewLeasesIfOwned (renewals : List LeaseRenewal)
  | releaseLease (name : LeaseName) (ownerToken : OwnerToken)
  deriving DecidableEq

/-- The diagnostic events that are recorded in a transaction of their own. -/
inductive DiagnosticEvent where
  | upstreamRequestStarted (apiFamily : String) (requestStartedAt rateWaitSeconds : Int)
  | upstreamRequestFinished (apiFamily : String) (outcome : String) (status : Option Int)
  | cacheIntegrityFailure (cacheKey : CacheKey) (reason : String) (resultCount : Nat)
  deriving DecidableEq

inductive RateOp where
  | getRateState (name : String)
  | setRateState (state : RateState)
  | recordEvent (event : DiagnosticEvent)
  deriving DecidableEq

inductive QueueOp where
  | enqueueRequestForWork (request : ArxivRequest) (cacheKey : CacheKey) (workKind : QueueWorkKind)
      (upstreamBudgetId : Option Uuid) (defaultTimeoutSeconds : Timeout) (now : Int)
  | claimNextQueueItem (ownerToken : OwnerToken) (claimTimeoutSeconds : Int)
      (cacheKeys : Option (List CacheKey))
  | completeQueueItem (requestId : Uuid) (timestamp : Int)
  | releaseOrDelayQueueItem (requestId : Uuid) (nextAttemptAt : Option Int)
      (errorCategory errorMessage : Option String) (status : RequestStatus) (timestamp : Int)
  | acquireIdFetchReservations (arxivIds : List String) (ownerToken : OwnerToken)
      (requestId : Uuid) (ttlSeconds : Int)
  | renewIdFetchReservations (arxivIds : List String) (ownerToken : OwnerToken) (ttlSeconds : Int)
  | releaseIdFetchReservations (arxivIds : List String) (ownerToken : OwnerToken) (timestamp : Int)
  | createUpstreamRequestBudget (maxRequests : Nat) (deadlineAt : Option Int) (timestamp : Int)
  | reserveQueueItemUpstreamRequest (requestId : Uuid)
  | checkQueueItemUpstreamRequestDeadlines (requestId : Uuid)
  | queueItemUpstreamDeadline (requestId : Uuid)
  | failActiveUpstreamBudgetItems (budgetId : Uuid) (errorCategory errorMessage : String)
      (timestamp : Int)
  | getQueueItem (requestId : Uuid)
  deriving DecidableEq

inductive LibraryOp where
  | getCacheEntry (cacheKey : CacheKey)
  | matchCount (cacheKey : CacheKey)
  | joinedCount (cacheKey : CacheKey)
  | matchPositions (cacheKey : CacheKey)
  | getPapersByIds (arxivIds : List String)
  | getCachedPapers (cacheKey : CacheKey)
  | recordCompletedCacheEntry (write : LibraryTables.CompletedCacheWrite)
  | recordCacheFailure (write : LibraryTables.CacheFailureWrite)
  | upsertPapers (papers : List ArxivPaper) (timestamp : Int)
  | upsertOaiRecords (records : List OaiRecord) (timestamp : Int)
  | markPaperDeleted (arxivId : String) (oaiIdentifier : Option String)
      (oaiDatestamp : Option Int) (oaiSetSpecs : List String) (timestamp : Int)
  deriving DecidableEq

inductive OaiOp where
  | getRunningOaiHarvest (request : OaiHarvestRequest)
  | getLatestResumableOaiHarvestToken (request : OaiHarvestRequest)
  | createOaiHarvestJob (request : OaiHarvestRequest) (resumptionToken : Option ResumptionToken)
      (started : Int)
  | getOaiHarvestResult (harvestId : Uuid)
  | ensureOaiHarvestDeadline (harvestId : Uuid) (deadlineAt timestamp : Int)
  | getOaiConsumedTokenHashes (harvestId : Uuid)
  | recordOaiRequestStarted (harvestId : Uuid) (timestamp : Int)
  | recordOaiPage (page : OaiPageRow)
  | getOaiWatermark (key : WatermarkKey)
  | setOaiWatermark (key : WatermarkKey) (lastResponseDate lastDatestampSeen : Option Int)
      (harvestId : Uuid) (timestamp : Int)
  | completeOaiHarvestJob (completion : OaiTables.Completion)
  deriving DecidableEq

/-- A legacy fetch, and the item and attempt the worker makes it for. -/
structure FetchCall where
  requestId : Uuid
  attempt : Nat
  request : ArxivRequest
  deriving DecidableEq

/-- A `ListRecords` call, and the job and page the harvest makes it for. -/
structure ListRecordsCall where
  harvestId : Uuid
  pageIndex : Nat
  params : OaiRequestParams
  timeoutSeconds : Int
  deriving DecidableEq

/-- An upstream call takes time, so its beginning and its end are two operations. -/
inductive UpstreamOp where
  | fetchBegin (call : FetchCall)
  | fetchEnd
  | listRecordsBegin (call : ListRecordsCall)
  | listRecordsEnd
  deriving DecidableEq

inductive Op where
  | clock (o : ClockOp)
  | lease (o : LeaseOp)
  | rate (o : RateOp)
  | queue (o : QueueOp)
  | library (o : LibraryOp)
  | oai (o : OaiOp)
  | upstream (o : UpstreamOp)
  | initSchema
  /-- The queue claim, the upstream lease and the id reservations in one transaction. -/
  | renewWorkerFetchOwnership (requestId : Uuid) (ownerToken : OwnerToken) (leaseName : LeaseName)
      (ttlSeconds : Int) (reservedIds : List String)
  /-- The records, the page and the cursor in one transaction. -/
  | checkpointOaiPage (checkpoint : OaiTables.Checkpoint)
  /-- The refresh period of the cache entry and the queue item in one transaction. -/
  | enqueueRefreshIfDue (request : ArxivRequest) (cacheKey : CacheKey)
      (defaultTimeoutSeconds : Timeout) (current : Int)
  deriving DecidableEq

@[reducible] def ClockOp.Res : ClockOp → Type
  | .utcNow | .sleep _ | .jitter _ => Int
  | .awake _ => Unit
  | .uuid4 => Uuid

@[reducible] def LeaseOp.Res : LeaseOp → Type
  | .acquireLease .. | .renewLeasesIfOwned _ => Bool
  | .releaseLease .. => Unit

@[reducible] def RateOp.Res : RateOp → Type
  | .getRateState _ => RateState
  | .setRateState _ | .recordEvent _ => Unit

@[reducible] def QueueOp.Res : QueueOp → Type
  | .enqueueRequestForWork .. => QueueItem × Bool
  | .claimNextQueueItem .. => Option QueueItem
  | .completeQueueItem .. | .releaseOrDelayQueueItem .. | .releaseIdFetchReservations ..
  | .failActiveUpstreamBudgetItems .. => Unit
  | .acquireIdFetchReservations .. => IdReservationResult
  | .renewIdFetchReservations .. => Bool
  | .createUpstreamRequestBudget .. => Uuid
  | .reserveQueueItemUpstreamRequest _ | .checkQueueItemUpstreamRequestDeadlines _ => Option String
  | .queueItemUpstreamDeadline _ => Option Int
  | .getQueueItem _ => Option QueueItem

@[reducible] def LibraryOp.Res : LibraryOp → Type
  | .getCacheEntry _ => Option CacheEntry
  | .matchCount _ | .joinedCount _ => Nat
  | .matchPositions _ => List Nat
  | .getPapersByIds _ => List (String × ArxivPaper)
  | .getCachedPapers _ => List ArxivPaper
  | .recordCompletedCacheEntry _ | .recordCacheFailure _ | .upsertPapers ..
  | .markPaperDeleted .. => Unit
  | .upsertOaiRecords .. => Nat × Nat × Nat

@[reducible] def OaiOp.Res : OaiOp → Type
  | .getRunningOaiHarvest _ => Option OaiJobRow
  | .getLatestResumableOaiHarvestToken _ => Option ResumptionToken
  | .createOaiHarvestJob .. => Uuid
  | .getOaiHarvestResult _ => Option OaiHarvestResult
  | .ensureOaiHarvestDeadline .. => Int
  | .getOaiConsumedTokenHashes _ => List String
  | .recordOaiRequestStarted .. => Nat
  | .recordOaiPage _ | .setOaiWatermark .. | .completeOaiHarvestJob _ => Unit
  | .getOaiWatermark _ => Option OaiWatermarkRow

@[reducible] def UpstreamOp.Res : UpstreamOp → Type
  | .fetchBegin _ | .listRecordsBegin _ => Unit
  | .fetchEnd => FetchResult
  | .listRecordsEnd => OaiPmhPage

@[reducible] def Op.Res : Op → Type
  | .clock o => o.Res
  | .lease o => o.Res
  | .rate o => o.Res
  | .queue o => o.Res
  | .library o => o.Res
  | .oai o => o.Res
  | .upstream o => o.Res
  | .initSchema => Unit
  | .renewWorkerFetchOwnership .. => Option String
  | .checkpointOaiPage _ => Nat × Nat × Nat
  | .enqueueRefreshIfDue .. => Option QueueItem × Bool

/-- The operations of Huldra as an interface for programs. -/
abbrev huldra : Process.Interface :=
  { Op := Op, Res := Op.Res, Exn := Exn }

/-- What the outside world answers: the server, and the random source. -/
structure Input where
  fetch : Except Exn FetchResult := .error .unexpected
  page : Except Exn OaiPmhPage := .error .unexpected
  jitter : Int := 0

/-! ## Execution -/

def ClockOp.exec (o : ClockOp) (now : Int) (input : Input) (nextUuid : Uuid) :
    Except Exn o.Res × Uuid :=
  match o with
  | .utcNow => (.ok now, nextUuid)
  | .sleep duration => (.ok (now + duration), nextUuid)
  | .awake _ => (.ok (), nextUuid)
  | .uuid4 => (.ok nextUuid, nextUuid + 1)
  | .jitter _ => (.ok input.jitter, nextUuid)

def LeaseOp.exec (o : LeaseOp) (now : Int) (leases : Leases) : Except Exn o.Res × Leases :=
  match o with
  | .acquireLease name owner timeout =>
      let out := leases.acquireLease name owner timeout now
      (.ok out.1, out.2)
  | .renewLeasesIfOwned renewals => leases.renewLeasesIfOwned renewals now
  | .releaseLease name owner => (.ok (), leases.releaseLease name owner)

def RateOp.exec (o : RateOp) (rates : String → Option RateState) :
    Except Exn o.Res × (String → Option RateState) :=
  match o with
  | .getRateState name => (.ok ((rates name).getD { name := name }), rates)
  | .setRateState state => (.ok (), Function.update rates state.name (some state))
  | .recordEvent _ => (.ok (), rates)

def QueueOp.exec (o : QueueOp) (now : Int) (nextUuid : Uuid) (q : QueueTables) :
    Except Exn o.Res × QueueTables :=
  match o with
  | .enqueueRequestForWork request cacheKey workKind budgetId defaultTimeout timestamp =>
      q.enqueueRequestForWork nextUuid request cacheKey workKind budgetId defaultTimeout timestamp
  | .claimNextQueueItem owner timeout cacheKeys =>
      let out := q.claimNextQueueItem owner timeout cacheKeys now
      (.ok out.1, out.2)
  | .completeQueueItem requestId timestamp => (.ok (), q.completeQueueItem requestId timestamp)
  | .releaseOrDelayQueueItem requestId nextAttemptAt category message status timestamp =>
      q.releaseOrDelayQueueItem requestId nextAttemptAt category message status timestamp
  | .acquireIdFetchReservations ids owner requestId ttl =>
      let out := q.acquireIdFetchReservations ids owner requestId ttl now
      (.ok out.1, out.2)
  | .renewIdFetchReservations ids owner ttl =>
      let out := q.renewIdFetchReservations ids owner ttl now
      (.ok out.1, out.2)
  | .releaseIdFetchReservations ids owner timestamp =>
      (.ok (), q.releaseIdFetchReservations ids owner timestamp)
  | .createUpstreamRequestBudget maxRequests deadlineAt timestamp =>
      (.ok nextUuid, q.createUpstreamRequestBudget nextUuid maxRequests deadlineAt timestamp)
  | .reserveQueueItemUpstreamRequest requestId =>
      let out := q.reserveQueueItemUpstreamRequest requestId now
      (.ok out.1, out.2)
  | .checkQueueItemUpstreamRequestDeadlines requestId =>
      let out := q.checkQueueItemUpstreamRequestDeadlines requestId now
      (.ok out.1, out.2)
  | .queueItemUpstreamDeadline requestId => (.ok (q.queueItemUpstreamDeadline requestId), q)
  | .failActiveUpstreamBudgetItems budgetId category message timestamp =>
      (.ok (), q.failActiveUpstreamBudgetItems budgetId category message timestamp)
  | .getQueueItem requestId => (.ok ((q.item? requestId).map (·.toQueueItem)), q)

def LibraryOp.exec (o : LibraryOp) (l : LibraryTables) : Except Exn o.Res × LibraryTables :=
  match o with
  | .getCacheEntry cacheKey => (.ok (l.cacheEntryOf? cacheKey), l)
  | .matchCount cacheKey => (.ok (l.matchCount cacheKey), l)
  | .joinedCount cacheKey => (.ok (l.joinedCount cacheKey), l)
  | .matchPositions cacheKey => (.ok (l.matchPositions cacheKey), l)
  | .getPapersByIds ids => (.ok (l.getPapersByIds ids), l)
  | .getCachedPapers cacheKey => (.ok (l.getCachedPapers cacheKey), l)
  | .recordCompletedCacheEntry write => (.ok (), l.recordCompletedCacheEntry write)
  | .recordCacheFailure write => (.ok (), l.recordCacheFailure write)
  | .upsertPapers papers timestamp => (.ok (), (l.upsertPapers papers timestamp).2)
  | .upsertOaiRecords records timestamp =>
      let out := l.upsertOaiRecords records timestamp
      (.ok out.1, out.2)
  | .markPaperDeleted arxivId oaiIdentifier oaiDatestamp oaiSetSpecs timestamp =>
      (.ok (), l.markPaperDeleted arxivId oaiIdentifier oaiDatestamp oaiSetSpecs timestamp)

def OaiOp.exec (o : OaiOp) (nextUuid : Uuid) (t : OaiTables) : Except Exn o.Res × OaiTables :=
  match o with
  | .getRunningOaiHarvest request => (.ok (t.getRunningOaiHarvest request), t)
  | .getLatestResumableOaiHarvestToken request =>
      (.ok (t.getLatestResumableOaiHarvestToken request), t)
  | .createOaiHarvestJob request token started =>
      (.ok nextUuid, t.createOaiHarvestJob nextUuid request token started)
  | .getOaiHarvestResult harvestId => (.ok ((t.job? harvestId).map OaiTables.oaiHarvestResult), t)
  | .ensureOaiHarvestDeadline harvestId deadlineAt timestamp =>
      t.ensureOaiHarvestDeadline harvestId deadlineAt timestamp
  | .getOaiConsumedTokenHashes harvestId => (.ok (t.getOaiConsumedTokenHashes harvestId), t)
  | .recordOaiRequestStarted harvestId timestamp => t.recordOaiRequestStarted harvestId timestamp
  | .recordOaiPage page => (.ok (), t.putPage page)
  | .getOaiWatermark key => (.ok (t.watermarks key), t)
  | .setOaiWatermark key responseDate datestamp harvestId timestamp =>
      (.ok (), t.setOaiWatermark key responseDate datestamp harvestId timestamp)
  | .completeOaiHarvestJob completion => (.ok (), t.completeOaiHarvestJob completion)

def UpstreamOp.exec (o : UpstreamOp) (input : Input) : Except Exn o.Res :=
  match o with
  | .fetchBegin _ | .listRecordsBegin _ => .ok ()
  | .fetchEnd => input.fetch
  | .listRecordsEnd => input.page

namespace Store

/-- The rows `apply_migrations` brings up to date on a store of this version. -/
def migrate (s : Store) : Store :=
  { s with
    rates := fun name => (s.rates name).map fun state =>
      let upstream429Total := max state.upstream429Total state.consecutive429Total
      { state with
        upstream429Total := upstream429Total
        consecutiveRateLimitTotal := max state.consecutiveRateLimitTotal state.consecutive429Total
        upstreamRateLimitedTotal := max state.upstreamRateLimitedTotal upstream429Total }
    queue := s.queue.backfillMemberships
    library := s.library.backfillCacheEntries }

/-- `apply_migrations`: a membership of a budget that does not exist violates the foreign key, and
nothing is committed. -/
def initSchema (s : Store) : Except Exn Unit × Store :=
  if s.queue.backfillOrphans then (.error .integrityError, s) else (.ok (), s.migrate)

theorem initSchema_cases (s : Store) : s.initSchema.2 = s ∨ s.initSchema.2 = s.migrate := by
  unfold initSchema
  split
  · exact Or.inl rfl
  · exact Or.inr rfl

@[simp] theorem initSchema_leases (s : Store) : s.initSchema.2.leases = s.leases := by
  rcases s.initSchema_cases with heq | heq <;> rw [heq]
  rfl

@[simp] theorem initSchema_oai (s : Store) : s.initSchema.2.oai = s.oai := by
  rcases s.initSchema_cases with heq | heq <;> rw [heq]
  rfl

@[simp] theorem initSchema_nextUuid (s : Store) : s.initSchema.2.nextUuid = s.nextUuid := by
  rcases s.initSchema_cases with heq | heq <;> rw [heq]
  rfl

/-- `gc`: of the tables here it deletes from the queue's only. -/
def gc (s : Store) (cutoff : Int) (syncJobBudgets : List Uuid) : Store :=
  { s with queue := s.queue.gc cutoff syncJobBudgets }

def renewWorkerFetchOwnership (s : Store) (requestId : Uuid) (ownerToken : OwnerToken)
    (leaseName : LeaseName) (ttlSeconds : Int) (reservedIds : List String) (current : Int) :
    Option String × Store :=
  let ids := reservedIds.eraseDups
  if !s.leases.ownedBy leaseName ownerToken then (some "lost_lease", s)
  else if !s.queue.claimedByOwner requestId ownerToken then (some "lost_claim", s)
  else if !s.queue.reservationsOwned ids ownerToken then (some "id_fetch_reserved", s)
  else
    let expiresAt := current + seconds ttlSeconds
    let queue := s.queue.updateItem requestId fun row => row.renewClaim expiresAt current
    (none,
      { s with
        leases := s.leases.extend leaseName ownerToken expiresAt
        queue := queue.extendReservations ids ownerToken ttlSeconds current })

def checkpointOaiPage (s : Store) (c : OaiTables.Checkpoint) :
    Except Exn (Nat × Nat × Nat) × Store :=
  if s.oai.matchesCursor c then
    let out := s.library.upsertOaiRecords c.records c.timestamp
    (.ok out.1, { s with library := out.2, oai := s.oai.checkpointPage c out.1 })
  else (.error (.runtimeError "OAI page checkpoint no longer matches the durable cursor"), s)

/-- The refresh time the entry and the request agree on: the earlier of the two. -/
def effectiveRefreshAfter (cache : CacheEntry) (request : ArxivRequest) : Option Int :=
  let requested := cache.completedAt.map fun t => t + seconds request.refreshIntervalSeconds
  match requested, cache.refreshAfter with
  | some r, some stored => some (min r stored)
  | some r, none => some r
  | none, stored => stored

def enqueueRefreshIfDue (s : Store) (request : ArxivRequest) (cacheKey : CacheKey)
    (defaultTimeoutSeconds : Timeout) (current : Int) :
    Except Exn (Option QueueItem × Bool) × Store :=
  let enqueue (s : Store) : Except Exn (Option QueueItem × Bool) × Store :=
    let out := s.queue.enqueueRequestForWork s.nextUuid request cacheKey .refreshCompleted none
      defaultTimeoutSeconds current
    (out.1.map fun r => (some r.1, r.2),
      { s with queue := out.2, nextUuid := s.nextUuid + 1 })
  let setRefreshAfter (refreshAfter : Option Int) : Store :=
    { s with
      library :=
        { s.library with
          cacheEntries := s.library.cacheEntries.map fun e =>
            if e.cacheKey = cacheKey then { e with refreshAfter := refreshAfter } else e } }
  if (s.queue.pendingItem? cacheKey).isSome then enqueue s
  else
    match s.library.cacheEntryOf? cacheKey with
    | none => (.ok (none, false), s)
    | some cache =>
        if cache.status ≠ .completed then (.ok (none, false), s)
        else
          match effectiveRefreshAfter cache request with
          | some due =>
              if current < due then
                (.ok (none, false),
                  if some due = cache.refreshAfter then s else setRefreshAfter (some due))
              else
                enqueue (setRefreshAfter (some (current + seconds request.refreshIntervalSeconds)))
          | none =>
              enqueue (setRefreshAfter (some (current + seconds request.refreshIntervalSeconds)))

/-- Run one operation at time `now`. -/
def exec (o : Op) (now : Int) (input : Input) (s : Store) : Except Exn o.Res × Store :=
  match o with
  | .clock o =>
      let out := o.exec now input s.nextUuid
      (out.1, { s with nextUuid := out.2 })
  | .lease o =>
      let out := o.exec now s.leases
      (out.1, { s with leases := out.2 })
  | .rate o =>
      let out := o.exec s.rates
      (out.1, { s with rates := out.2 })
  | .queue o =>
      let out := o.exec now s.nextUuid s.queue
      (out.1, { s with queue := out.2, nextUuid := s.nextUuid + 1 })
  | .library o =>
      let out := o.exec s.library
      (out.1, { s with library := out.2 })
  | .oai o =>
      let out := o.exec s.nextUuid s.oai
      (out.1, { s with oai := out.2, nextUuid := s.nextUuid + 1 })
  | .upstream o => (o.exec input, s)
  | .initSchema => s.initSchema
  | .renewWorkerFetchOwnership requestId owner leaseName ttl reservedIds =>
      let out := s.renewWorkerFetchOwnership requestId owner leaseName ttl reservedIds now
      (.ok out.1, out.2)
  | .checkpointOaiPage c => s.checkpointOaiPage c
  | .enqueueRefreshIfDue request cacheKey defaultTimeout current =>
      s.enqueueRefreshIfDue request cacheKey defaultTimeout current

/-- A sleep ends no earlier than the time it was started for. -/
def ready (o : Op) (now : Int) : Bool :=
  match o with
  | .clock (.awake wakeAt) => wakeAt ≤ now
  | _ => true

/-- What can be raised at any operation without the code raising it. -/
def fault (e : Exn) : Bool :=
  e = .unexpected || e = .interrupt

/-- What one operation can do: answer as `exec` says, or raise a fault with or without effect. -/
def Performed (o : Op) (t : Int) (r : Except Exn o.Res) (s s' : Store) : Prop :=
  (∃ input, ready o t = true ∧ exec o t input s = (r, s')) ∨
    (∃ e, fault e = true ∧ r = .error e ∧ (s' = s ∨ ∃ input, s' = (exec o t input s).2))

end Store

/-- One process on the store, among others that take these steps. -/
def Store.among (others : Int → Store → Store → Prop) : Process.Surroundings huldra Store :=
  { does := Store.Performed, others := others }

/-- One process on the store and nobody else. -/
def Store.alone : Process.Surroundings huldra Store :=
  .alone Store.Performed

/-- The system of all clients with these programs over one store. -/
def storeSystem (Client Out : Type) (program : Client → Nat → Process.Prog huldra Out) :
    Process.System huldra where
  State := Store
  Input := Input
  Client := Client
  Out := Out
  init := {}
  exec := Store.exec
  ready := Store.ready
  faults := Store.fault
  program := program

/-- The next `n` operations of a process, while the server is not asked for anything. -/
def runs {Client Out : Type} {program : Client → Nat → Process.Prog huldra Out} (pid n : Nat) :
    List (Process.System.Config.Choice (storeSystem Client Out program)) :=
  List.replicate n (.run pid ({} : Input))

namespace Store

theorem executed_iff {Client Out : Type} {program : Client → Nat → Process.Prog huldra Out}
    {o : Op} {t : Int} {r : Except Exn o.Res} {s s' : Store} :
    Process.System.Executed (storeSystem Client Out program) o t r s s' ↔
      Performed o t r s s' := Iff.rfl

namespace Performed

variable {o : Op} {t : Int} {r : Except Exn o.Res} {s s' : Store}

/-- Whatever was answered, the state is the old one or the one the operation leads to. -/
theorem state (h : Performed o t r s s') : s' = s ∨ ∃ input, s' = (exec o t input s).2 := by
  rcases h with ⟨input, _, hexec⟩ | ⟨e, _, _, hstate⟩
  · exact Or.inr ⟨input, by simp [hexec]⟩
  · exact hstate

/-- A result, as opposed to an exception, is the one the operation computes. -/
theorem of_ok {b : o.Res} (h : Performed o t (.ok b) s s') :
    ∃ input, ready o t = true ∧ exec o t input s = (.ok b, s') := by
  rcases h with h | ⟨e, _, hr, _⟩
  · exact h
  · cases hr

end Performed

end Store

end Huldra
