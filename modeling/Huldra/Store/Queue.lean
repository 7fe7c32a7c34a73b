import Huldra.Keys
import Mathlib.Data.List.Sort

/-!
# Queue — `queue_items`, upstream budgets and id reservations

The tables a worker pass works on and the transactions over them.  Every function here is the
body of one transaction: it reads and writes the tables it is given and answers.  The clock
reading is an argument; the caller says whether it was taken inside the transaction.
-/

namespace Huldra

/-- A row of `queue_items`: a `QueueItem` and the two flags `_queue_item_from_row` drops. -/
structure QueueRow extends QueueItem where
  upstreamBudgetGateClosed : Bool := false
  unbudgetedDemand : Bool := false
  deriving DecidableEq, Repr

/-- A row of `upstream_request_budgets`. -/
structure BudgetRow where
  budgetId : Uuid
  maxRequests : Nat
  requestsStarted : Nat := 0
  deadlineAt : Option Int
  createdAt : Int
  updatedAt : Int
  deriving DecidableEq, Repr

/-- A row of `queue_item_upstream_budgets`. -/
structure MembershipRow where
  requestId : Uuid
  budgetId : Uuid
  createdAt : Int
  firstAttemptNumber : Nat
  lastChargedAttempt : Nat := 0
  deriving DecidableEq, Repr

/-- A row of `id_fetch_reservations`. -/
structure ReservationRow where
  arxivId : String
  ownerToken : OwnerToken
  requestId : Uuid
  acquiredAt : Int
  expiresAt : Int
  deriving DecidableEq, Repr

structure IdReservationResult where
  acquiredIds : List String
  blockedUntil : Option Int
  deriving DecidableEq, Repr

structure QueueTables where
  items : List QueueRow := []
  budgets : List BudgetRow := []
  memberships : List MembershipRow := []
  reservations : List ReservationRow := []
  deriving DecidableEq

/-- `message[:1000] if message else None` -/
def truncateMessage (message : Option String) : Option String :=
  match message with
  | none => none
  | some m => if m = "" then none else some (String.ofList (m.toList.take 1000))

namespace QueueRow

/-- `claim_next_queue_item` -/
def claim (row : QueueRow) (ownerToken : OwnerToken) (claimedUntil current : Int) : QueueRow :=
  { row with
    status := .claimed
    claimedBy := some ownerToken
    claimedUntil := some claimedUntil
    upstreamBudgetGateClosed := false
    attemptsTotal := row.attemptsTotal + 1
    updatedAt := current }

/-- `complete_queue_item` -/
def complete (row : QueueRow) (timestamp : Int) : QueueRow :=
  { row with
    status := .completed
    completedAt := some timestamp
    updatedAt := timestamp
    claimedBy := none
    claimedUntil := none
    errorCategory := none
    errorMessage := none }

/-- `release_or_delay_queue_item` -/
def releaseOrDelay (row : QueueRow) (nextAttemptAt : Option Int)
    (errorCategory errorMessage : Option String) (status : RequestStatus) (timestamp : Int) :
    QueueRow :=
  { row with
    status := status
    nextAttemptAt := nextAttemptAt
    updatedAt := timestamp
    claimedBy := none
    claimedUntil := none
    upstreamBudgetGateClosed := false
    errorCategory := errorCategory
    errorMessage := truncateMessage errorMessage }

/-- `_wake_id_fetch_reserved_queue_items_conn` -/
def wake (row : QueueRow) (timestamp : Int) : QueueRow :=
  { row with
    status := .queued
    nextAttemptAt := none
    updatedAt := timestamp
    claimedBy := none
    claimedUntil := none
    upstreamBudgetGateClosed := false
    errorCategory := none
    errorMessage := none }

/-- `fail_active_upstream_budget_items` -/
def failOfBudget (row : QueueRow) (errorCategory errorMessage : String) (timestamp : Int) :
    QueueRow :=
  { row with
    status := .failed
    updatedAt := timestamp
    claimedBy := none
    claimedUntil := none
    upstreamBudgetGateClosed := false
    nextAttemptAt := none
    errorCategory := some errorCategory
    errorMessage := some (String.ofList (errorMessage.toList.take 1000)) }

/-- The claim part of `renew_worker_fetch_ownership`. -/
def renewClaim (row : QueueRow) (expiresAt current : Int) : QueueRow :=
  { row with claimedUntil := some expiresAt, updatedAt := current }

end QueueRow

namespace QueueTables

/-! ## Rows -/

def item? (q : QueueTables) (requestId : Uuid) : Option QueueRow :=
  q.items.find? fun row => row.requestId = requestId

def budget? (q : QueueTables) (budgetId : Uuid) : Option BudgetRow :=
  q.budgets.find? fun row => row.budgetId = budgetId

/-- `UPDATE queue_items SET … WHERE request_id=?` -/
def updateItem (q : QueueTables) (requestId : Uuid) (f : QueueRow → QueueRow) : QueueTables :=
  { q with items := q.items.map fun row => if row.requestId = requestId then f row else row }

/-- `SELECT … FROM queue_items WHERE cache_key = ? AND status IN ('queued', 'delayed', 'claimed')
ORDER BY created_at ASC LIMIT 1` -/
def pendingItem? (q : QueueTables) (cacheKey : CacheKey) : Option QueueRow :=
  ((q.items.filter fun row => row.cacheKey = cacheKey && row.status.pending).insertionSort
    fun a b => a.createdAt ≤ b.createdAt).head?

/-- The memberships of an item, `ORDER BY created_at, budget_id`. -/
def membershipsOf (q : QueueTables) (requestId : Uuid) : List MembershipRow :=
  (q.memberships.filter fun m => m.requestId = requestId).insertionSort
    fun a b => a.createdAt < b.createdAt ∨ (a.createdAt = b.createdAt ∧ a.budgetId ≤ b.budgetId)

/-! ## Enqueue and join -/

/-- What joining makes of the row's request, work kind and priority. -/
def joinRequest (existing : QueueRow) (request : ArxivRequest) (workKind : QueueWorkKind)
    (defaultTimeoutSeconds : Timeout) : Option (ArxivRequest × QueueWorkKind) :=
  let (replacement, replacementWorkKind) : Option ArxivRequest × QueueWorkKind :=
    if workKind = .refreshCompleted then
      if existing.workKind ≠ .refreshCompleted then (some request, .refreshCompleted)
      else if request.refreshIntervalSeconds < existing.request.refreshIntervalSeconds then
        (some { existing.request with refreshIntervalSeconds := request.refreshIntervalSeconds },
          existing.workKind)
      else (none, existing.workKind)
    else (none, existing.workKind)
  let merged := replacement.getD existing.request
  let effectiveTimeout := max (existing.request.timeoutSeconds.getD defaultTimeoutSeconds)
    (request.timeoutSeconds.getD defaultTimeoutSeconds)
  let effectivePriority := max existing.request.priority request.priority
  let replacement :=
    if merged.timeoutSeconds ≠ some effectiveTimeout ∨ merged.priority ≠ effectivePriority then
      some { merged with timeoutSeconds := some effectiveTimeout, priority := effectivePriority }
    else replacement
  replacement.map fun r => (r, replacementWorkKind)

/-- The first attempt a budget pays for when it joins the row now. -/
def firstAttemptNumber (existing : QueueRow) : Nat :=
  let joinsCurrentAttempt := existing.status = .claimed ∧ existing.upstreamBudgetGateClosed = false
  max 1 (if joinsCurrentAttempt then existing.attemptsTotal else existing.attemptsTotal + 1)

/-- `INSERT INTO queue_item_upstream_budgets …`, `OR IGNORE` when the key is taken. -/
def insertMembership (q : QueueTables) (m : MembershipRow) : QueueTables :=
  if q.memberships.any fun row => row.requestId = m.requestId && row.budgetId = m.budgetId then q
  else { q with memberships := q.memberships ++ [m] }

/-- The row takes over what the new request asks for beyond it. -/
def mergeRequest (q : QueueTables) (existing : QueueRow) (request : ArxivRequest)
    (workKind : QueueWorkKind) (defaultTimeoutSeconds : Timeout) (now : Int) : QueueTables :=
  match joinRequest existing request workKind defaultTimeoutSeconds with
  | some (replacement, replacementWorkKind) =>
      q.updateItem existing.requestId fun row =>
        { row with
          workKind := replacementWorkKind
          request := replacement.stored
          priority := replacement.priority
          updatedAt := now }
  | none => q

/-- The row is noted as demand without a budget, or as demand of this one. -/
def joinDemand (q : QueueTables) (existing : QueueRow) (upstreamBudgetId : Option Uuid)
    (now : Int) : QueueTables :=
  match upstreamBudgetId with
  | none =>
      if existing.unbudgetedDemand then q
      else q.updateItem existing.requestId fun row =>
        { row with unbudgetedDemand := true, updatedAt := now }
  | some budgetId =>
      (q.updateItem existing.requestId fun row =>
        { row with
          upstreamBudgetId := row.upstreamBudgetId.or (some budgetId)
          updatedAt := now }).insertMembership
        { requestId := existing.requestId
          budgetId := budgetId
          createdAt := now
          firstAttemptNumber := firstAttemptNumber existing }

/-- The join of new demand to a pending row. -/
def joinPending (q : QueueTables) (existing : QueueRow) (request : ArxivRequest)
    (workKind : QueueWorkKind) (upstreamBudgetId : Option Uuid) (defaultTimeoutSeconds : Timeout)
    (now : Int) : QueueTables :=
  (q.mergeRequest existing request workKind defaultTimeoutSeconds now).joinDemand existing
    upstreamBudgetId now

/-- The row of work nobody is pending on. -/
def newRow (requestId : Uuid) (request : ArxivRequest) (cacheKey : CacheKey)
    (workKind : QueueWorkKind) (upstreamBudgetId : Option Uuid) (now : Int) : QueueRow :=
  { requestId := requestId
    cacheKey := cacheKey
    clientId := request.clientId
    request := request.stored
    priority := request.priority
    status := .queued
    workKind := workKind
    upstreamBudgetId := upstreamBudgetId
    createdAt := now
    updatedAt := now
    unbudgetedDemand := upstreamBudgetId.isNone }

/-- Append the row, and the membership of its budget. -/
def insertItem (q : QueueTables) (row : QueueRow) (upstreamBudgetId : Option Uuid) (now : Int) :
    QueueTables :=
  let q := { q with items := q.items ++ [row] }
  match upstreamBudgetId with
  | none => q
  | some budgetId =>
      q.insertMembership
        { requestId := row.requestId
          budgetId := budgetId
          createdAt := now
          firstAttemptNumber := 1 }

/-- The check a timeout has to pass when a request is read back, `gt=0`. -/
def readsBack (request : ArxivRequest) : Bool :=
  request.timeoutSeconds.all fun timeout => ((0 : Int) : Timeout) < timeout

/-- `_enqueue_request_for_work_conn`: the row and whether it was joined.  A budget that does not
exist violates the foreign key of the membership; and a row that is joined is read back, which the
default can fail that has become its timeout. -/
def enqueueRequestForWork (q : QueueTables) (fresh : Uuid) (request : ArxivRequest)
    (cacheKey : CacheKey) (workKind : QueueWorkKind) (upstreamBudgetId : Option Uuid)
    (defaultTimeoutSeconds : Timeout) (now : Int) :
    Except Exn (QueueItem × Bool) × QueueTables :=
  if upstreamBudgetId.any fun budgetId => (q.budget? budgetId).isNone then
    (.error .integrityError, q)
  else
    match q.pendingItem? cacheKey with
    | some existing =>
        let joined := q.joinPending existing request workKind upstreamBudgetId
          defaultTimeoutSeconds now
        let row := (joined.item? existing.requestId).getD existing
        if readsBack row.request then (.ok (row.toQueueItem, true), joined)
        else (.error (.valueError "Input should be greater than 0"), q)
    | none =>
        let q := q.insertItem (newRow fresh request cacheKey workKind upstreamBudgetId now)
          upstreamBudgetId now
        match q.item? fresh with
        | some row => (.ok (row.toQueueItem, false), q)
        | none => (.error .assertionError, q)

/-! ## Claiming, ending and waking an item -/

/-- What `claim_next_queue_item` may pick: ready work, or a claim that has run out. -/
def claimable (row : QueueRow) (current : Int) : Bool :=
  ((row.status = .queued || row.status = .delayed) && row.nextAttemptAt.all (· ≤ current)) ||
    (row.status = .claimed && row.claimedUntil.any (· ≤ current))

/-- Highest priority first, then the oldest. -/
def claimNextQueueItem (q : QueueTables) (ownerToken : OwnerToken) (claimTimeoutSeconds : Int)
    (cacheKeys : Option (List CacheKey)) (current : Int) : Option QueueItem × QueueTables :=
  let eligible := q.items.filter fun row =>
    claimable row current && cacheKeys.all fun keys => keys.contains row.cacheKey
  let ordered := eligible.insertionSort
    fun a b => b.priority < a.priority ∨ (a.priority = b.priority ∧ a.createdAt ≤ b.createdAt)
  match ordered with
  | [] => (none, q)
  | row :: _ =>
      let claim (row : QueueRow) : QueueRow :=
        row.claim ownerToken (current + seconds claimTimeoutSeconds) current
      (some (claim row).toQueueItem, q.updateItem row.requestId claim)

def completeQueueItem (q : QueueTables) (requestId : Uuid) (timestamp : Int) : QueueTables :=
  q.updateItem requestId fun row => row.complete timestamp

/-- `idx_queue_pending_cache_key`: no two pending rows share a cache key. -/
def violatesPendingIndex (q : QueueTables) (requestId : Uuid) (status : RequestStatus) : Bool :=
  match q.item? requestId with
  | some row =>
      status.pending && q.items.any fun other =>
        other.requestId ≠ requestId && other.cacheKey = row.cacheKey && other.status.pending
  | none => false

def releaseOrDelayQueueItem (q : QueueTables) (requestId : Uuid) (nextAttemptAt : Option Int)
    (errorCategory errorMessage : Option String) (status : RequestStatus) (timestamp : Int) :
    Except Exn Unit × QueueTables :=
  if q.violatesPendingIndex requestId status then (.error .integrityError, q)
  else
    (.ok (), q.updateItem requestId fun row =>
      row.releaseOrDelay nextAttemptAt errorCategory errorMessage status timestamp)

/-- The claim part of `renew_worker_fetch_ownership`. -/
def claimedByOwner (q : QueueTables) (requestId : Uuid) (ownerToken : OwnerToken) : Bool :=
  match q.item? requestId with
  | some row => row.status = .claimed && row.claimedBy = some ownerToken
  | none => false

/-- `_wake_id_fetch_reserved_queue_items_conn` -/
def wakeIdFetchReserved (q : QueueTables) (releasedIds : List String) (timestamp : Int) :
    QueueTables :=
  { q with
    items := q.items.map fun row =>
      if row.status = .delayed ∧ row.errorCategory = some "id_fetch_reserved" ∧
          (row.request.idList.any fun value =>
            releasedIds.contains (Keys.normalizeArxivId value)) = true then
        row.wake timestamp
      else row }

/-! ## Id reservations -/

def acquireIdFetchReservations (q : QueueTables) (arxivIds : List String)
    (ownerToken : OwnerToken) (requestId : Uuid) (ttlSeconds current : Int) :
    IdReservationResult × QueueTables :=
  let ids := arxivIds.eraseDups
  if ids.isEmpty then (⟨[], none⟩, q)
  else
    let live := q.reservations.filter fun row => current < row.expiresAt
    let blocking := (live.filter fun row =>
      ids.contains row.arxivId && row.ownerToken ≠ ownerToken).map (·.expiresAt)
    match blocking with
    | first :: rest =>
        (⟨[], some (rest.foldl min first)⟩, { q with reservations := live })
    | [] =>
        let taken := ids.map fun arxivId =>
          { arxivId := arxivId
            ownerToken := ownerToken
            requestId := requestId
            acquiredAt := current
            expiresAt := current + seconds ttlSeconds : ReservationRow }
        (⟨ids, none⟩,
          { q with
            reservations := (live.filter fun row => !ids.contains row.arxivId) ++ taken })

/-- Every one of these ids is reserved by this owner. -/
def reservationsOwned (q : QueueTables) (ids : List String) (ownerToken : OwnerToken) : Bool :=
  ids.all fun arxivId =>
    q.reservations.any fun row => row.arxivId = arxivId && row.ownerToken = ownerToken

def extendReservations (q : QueueTables) (ids : List String) (ownerToken : OwnerToken)
    (ttlSeconds current : Int) : QueueTables :=
  { q with
    reservations := q.reservations.map fun row =>
      if row.ownerToken = ownerToken ∧ ids.contains row.arxivId = true then
        { row with acquiredAt := current, expiresAt := current + seconds ttlSeconds }
      else row }

def renewIdFetchReservations (q : QueueTables) (arxivIds : List String) (ownerToken : OwnerToken)
    (ttlSeconds current : Int) : Bool × QueueTables :=
  let ids := arxivIds.eraseDups
  if q.reservationsOwned ids ownerToken then
    (true, q.extendReservations ids ownerToken ttlSeconds current)
  else (false, q)

def releaseIdFetchReservations (q : QueueTables) (arxivIds : List String)
    (ownerToken : OwnerToken) (timestamp : Int) : QueueTables :=
  let ids := arxivIds.eraseDups
  let released (row : ReservationRow) : Bool :=
    row.ownerToken = ownerToken && ids.contains row.arxivId
  if q.reservations.any released then
    ({ q with reservations := q.reservations.filter fun row => !released row }).wakeIdFetchReserved
      ids timestamp
  else q

/-! ## Upstream budgets -/

def createUpstreamRequestBudget (q : QueueTables) (fresh : Uuid) (maxRequests : Nat)
    (deadlineAt : Option Int) (timestamp : Int) : QueueTables :=
  { q with
    budgets := q.budgets ++
      [{ budgetId := fresh
         maxRequests := maxRequests
         deadlineAt := deadlineAt
         createdAt := timestamp
         updatedAt := timestamp }] }

/-- `_QueueItemBudgetAttemptState` -/
structure BudgetAttemptState where
  attemptNumber : Nat
  unbudgetedDemand : Bool
  activeBudgetIds : List Uuid
  unchargedBudgetIds : List Uuid
  futureBudgetIds : List Uuid
  deriving DecidableEq, Repr

def budgetAttemptState (q : QueueTables) (requestId : Uuid) : BudgetAttemptState :=
  match q.item? requestId with
  | none => ⟨0, false, [], [], []⟩
  | some row =>
      let attempt := row.attemptsTotal
      let memberships := q.membershipsOf requestId
      { attemptNumber := attempt
        unbudgetedDemand := row.unbudgetedDemand
        activeBudgetIds :=
          (memberships.filter fun m => m.firstAttemptNumber ≤ attempt).map (·.budgetId)
        unchargedBudgetIds :=
          (memberships.filter fun m =>
            m.firstAttemptNumber ≤ attempt && m.lastChargedAttempt < attempt).map (·.budgetId)
        futureBudgetIds :=
          (memberships.filter fun m => attempt < m.firstAttemptNumber).map (·.budgetId) }

/-- What is wrong with one budget now, if anything. -/
def budgetError (q : QueueTables) (budgetId : Uuid) (current : Int) (enforceRequestLimit : Bool) :
    Option String :=
  match q.budget? budgetId with
  | none => some "request_budget_exceeded"
  | some budget =>
      if budget.deadlineAt.any (· ≤ current) then some "deadline_budget_exceeded"
      else if enforceRequestLimit && budget.maxRequests ≤ budget.requestsStarted then
        some "request_budget_exceeded"
      else none

/-- `_upstream_budget_errors_conn`: the budgets with an error, in order, each once. -/
def upstreamBudgetErrors (q : QueueTables) (budgetIds : List Uuid) (current : Int)
    (enforceRequestLimit : Bool) : List (Uuid × String) :=
  budgetIds.eraseDups.filterMap fun budgetId =>
    (q.budgetError budgetId current enforceRequestLimit).map fun error => (budgetId, error)

def preferredBudgetError (invalid : List (Uuid × String)) : String :=
  if invalid.any fun entry => entry.2 = "deadline_budget_exceeded" then "deadline_budget_exceeded"
  else "request_budget_exceeded"

/-- `_detach_queue_budget_memberships_conn` -/
def detachMemberships (q : QueueTables) (requestId : Uuid) (budgetIds : List Uuid) : QueueTables :=
  let q :=
    { q with
      memberships := q.memberships.filter fun m =>
        !(m.requestId = requestId && budgetIds.contains m.budgetId) }
  q.updateItem requestId fun row =>
    { row with upstreamBudgetId := (q.membershipsOf requestId).head?.map (·.budgetId) }

/-- `_detach_invalid_queue_budgets_conn`, which is called only when some budget is invalid. -/
def detachInvalid (q : QueueTables) (requestId : Uuid) (invalid : List (Uuid × String)) :
    QueueTables :=
  if invalid.isEmpty then q else q.detachMemberships requestId (invalid.map Prod.fst)

/-- `_reserve_upstream_budgets_conn`: charge every budget, or none and the first error. -/
def reserveUpstreamBudgets (q : QueueTables) (budgetIds : List Uuid) (current : Int) :
    Option String × QueueTables :=
  match budgetIds.findSome? fun budgetId => q.budgetError budgetId current true with
  | some error => (some error, q)
  | none =>
      (none,
        { q with
          budgets := q.budgets.map fun budget =>
            if budgetIds.contains budget.budgetId then
              { budget with
                requestsStarted := budget.requestsStarted + budgetIds.count budget.budgetId
                updatedAt := current }
            else budget })

/-- Mark the charged memberships and close the item's budget gate for this attempt. -/
def closeBudgetGate (q : QueueTables) (requestId : Uuid) (attempt : Nat) (charged : List Uuid) :
    QueueTables :=
  let q : QueueTables :=
    { q with
      memberships := q.memberships.map fun m =>
        if m.requestId = requestId ∧ charged.contains m.budgetId = true then
          { m with lastChargedAttempt := attempt }
        else m }
  q.updateItem requestId fun row =>
    if row.status = .claimed then { row with upstreamBudgetGateClosed := true } else row

/-- The budgets `reserve_queue_item_upstream_request` detaches before it charges the others. -/
def invalidForReservation (q : QueueTables) (state : BudgetAttemptState) (current : Int) :
    List (Uuid × String) :=
  let invalid := q.upstreamBudgetErrors (state.activeBudgetIds ++ state.futureBudgetIds) current
    false
  let capacityErrors := q.upstreamBudgetErrors (state.unchargedBudgetIds ++ state.futureBudgetIds)
    current true
  invalid ++ capacityErrors.filter fun entry => !invalid.any fun other => other.1 = entry.1

def reserveQueueItemUpstreamRequest (q : QueueTables) (requestId : Uuid) (current : Int) :
    Option String × QueueTables :=
  let state := q.budgetAttemptState requestId
  let invalid := q.invalidForReservation state current
  let valid (budgetId : Uuid) : Bool := !invalid.any fun entry => entry.1 = budgetId
  let q := q.detachInvalid requestId invalid
  let validActive := state.activeBudgetIds.filter valid
  let validFuture := state.futureBudgetIds.filter valid
  let validUncharged := state.unchargedBudgetIds.filter valid
  if !state.unbudgetedDemand && validActive.isEmpty then
    if !validFuture.isEmpty then (some "budget_deferred", q)
    else (some (preferredBudgetError invalid), q)
  else
    match q.reserveUpstreamBudgets validUncharged current with
    | (some error, q) => (some error, q)
    | (none, q) => (none, q.closeBudgetGate requestId state.attemptNumber validUncharged)

def checkQueueItemUpstreamRequestDeadlines (q : QueueTables) (requestId : Uuid) (current : Int) :
    Option String × QueueTables :=
  let state := q.budgetAttemptState requestId
  let invalid := q.upstreamBudgetErrors (state.activeBudgetIds ++ state.futureBudgetIds) current
    false
  let valid (budgetId : Uuid) : Bool := !invalid.any fun entry => entry.1 = budgetId
  let q := q.detachInvalid requestId invalid
  if state.unbudgetedDemand || !(state.activeBudgetIds.filter valid).isEmpty then (none, q)
  else if !(state.futureBudgetIds.filter valid).isEmpty then (some "budget_deferred", q)
  else (some (preferredBudgetError invalid), q)

/-- `queue_item_upstream_deadline`: the latest deadline of the budgets of this attempt, none when
some demand has no deadline. -/
def queueItemUpstreamDeadline (q : QueueTables) (requestId : Uuid) : Option Int :=
  match q.item? requestId with
  | none => none
  | some row =>
      if row.unbudgetedDemand then none
      else
        let active := (q.membershipsOf requestId).filter fun m =>
          m.firstAttemptNumber ≤ row.attemptsTotal
        let deadlines := active.map fun m => (q.budget? m.budgetId).bind (·.deadlineAt)
        if deadlines.any Option.isNone then none
        else
          match deadlines.filterMap id with
          | [] => none
          | first :: rest => some (rest.foldl max first)

/-- The items `fail_active_upstream_budget_items` reconciles. -/
def boundToBudget (q : QueueTables) (budgetId : Uuid) (row : QueueRow) : Bool :=
  row.status.pending &&
    (row.upstreamBudgetId = some budgetId ||
      q.memberships.any fun m => m.requestId = row.requestId && m.budgetId = budgetId)

/-- One item of the loop: detach the budget, and fail the item if no demand is left. -/
def failItemOfBudget (q : QueueTables) (requestId budgetId : Uuid) (errorCategory : String)
    (errorMessage : String) (timestamp : Int) : QueueTables :=
  let q := q.detachMemberships requestId [budgetId]
  match q.item? requestId with
  | none => q
  | some row =>
      if row.unbudgetedDemand || q.memberships.any fun m => m.requestId = requestId then q
      else q.updateItem requestId fun row =>
        if row.status.pending then row.failOfBudget errorCategory errorMessage timestamp else row

def failActiveUpstreamBudgetItems (q : QueueTables) (budgetId : Uuid) (errorCategory : String)
    (errorMessage : String) (timestamp : Int) : QueueTables :=
  ((q.items.filter (q.boundToBudget budgetId)).map (·.requestId)).foldl
    (fun q requestId => q.failItemOfBudget requestId budgetId errorCategory errorMessage timestamp)
    q

/-- `apply_migrations`: a membership, charged so far, for each primary budget that has none. -/
def backfillMemberships (q : QueueTables) : QueueTables :=
  q.items.foldl
    (fun q row => match row.upstreamBudgetId with
      | none => q
      | some budgetId => q.insertMembership
          { requestId := row.requestId
            budgetId := budgetId
            createdAt := row.createdAt
            firstAttemptNumber := 1
            lastChargedAttempt := row.attemptsTotal })
    q

/-- Filling in the memberships would add one of a budget that does not exist. -/
def backfillOrphans (q : QueueTables) : Bool :=
  q.items.any fun row => row.upstreamBudgetId.any fun budgetId =>
    (q.budget? budgetId).isNone &&
      !q.memberships.any fun m => m.requestId = row.requestId && m.budgetId = budgetId

/-- The terminal items `gc` deletes. -/
def collectable (row : QueueRow) (cutoff : Int) : Bool :=
  (row.status = .completed && row.completedAt.any fun completedAt => completedAt < cutoff) ||
    (row.status = .failed && row.updatedAt < cutoff)

/-- `gc`: old terminal items go, with their memberships, and then the budgets nothing refers to.
`syncJobBudgets` are the budgets of the sync jobs that are kept. -/
def gc (q : QueueTables) (cutoff : Int) (syncJobBudgets : List Uuid) : QueueTables :=
  let items := q.items.filter fun row => !collectable row cutoff
  let memberships := q.memberships.filter fun m => items.any fun row => row.requestId = m.requestId
  { q with
    items := items
    memberships := memberships
    budgets := q.budgets.filter fun budget =>
      (items.any fun row => row.upstreamBudgetId = some budget.budgetId) ||
        (memberships.any fun m => m.budgetId = budget.budgetId) ||
        syncJobBudgets.contains budget.budgetId }

end QueueTables

end Huldra
