import Huldra.Clients

/-!
# Routine — what a worker pass asks for besides admission and the fetch

Planning, gating and every ending of a pass are made of operations on its own item, under its own
token.  One lemma for each stage says so; the disciplines that follow a pass need no more of them.
-/

namespace Huldra
namespace Worker

open Process (Prog)

/-- What a pass of `owner` on the item `requestId` asks of the queue and the library. -/
def LeaseFree (owner : OwnerToken) (requestId : Uuid) : Op → Prop
  | .clock .utcNow | .library _ | .rate (.recordEvent (.cacheIntegrityFailure ..)) => True
  | .queue (.completeQueueItem r _) => r = requestId
  | .queue (.releaseOrDelayQueueItem r _ _ _ status _) =>
      r = requestId ∧ (status = .delayed ∨ status = .failed)
  | .queue (.acquireIdFetchReservations _ o r _) => o = owner ∧ r = requestId
  | .queue (.renewIdFetchReservations _ o _) => o = owner
  | .queue (.releaseIdFetchReservations _ o _) => o = owner
  | .queue (.reserveQueueItemUpstreamRequest r) => r = requestId
  | .queue (.checkQueueItemUpstreamRequestDeadlines r) => r = requestId
  | .queue (.queueItemUpstreamDeadline r) => r = requestId
  | _ => False

/-- The same, when it asks for no budget verdict and fails the item for its response only. -/
def Plain (owner : OwnerToken) (requestId : Uuid) : Op → Prop
  | .clock .utcNow | .library _ | .rate (.recordEvent (.cacheIntegrityFailure ..)) => True
  | .queue (.completeQueueItem r _) => r = requestId
  | .queue (.releaseOrDelayQueueItem r _ category _ status _) =>
      r = requestId ∧ (status = .delayed ∨ (status = .failed ∧ category = some "non_retryable"))
  | .queue (.acquireIdFetchReservations _ o r _) => o = owner ∧ r = requestId
  | .queue (.renewIdFetchReservations _ o _) => o = owner
  | .queue (.releaseIdFetchReservations _ o _) => o = owner
  | .queue (.queueItemUpstreamDeadline r) => r = requestId
  | _ => False

theorem Plain.leaseFree {owner : OwnerToken} {requestId : Uuid} {o : Op}
    (h : Plain owner requestId o) : LeaseFree owner requestId o := by
  unfold Plain at h
  split at h
  case h_5 => exact ⟨h.1, h.2.imp id And.left⟩
  all_goals first | exact h | exact h.elim

/-- The two operations on the lease that any stage may need. -/
def OnLease (owner : OwnerToken) (requestId : Uuid) (o : Op) : Prop :=
  o = .lease (.releaseLease .upstreamFetch owner) ∨
    ∃ ttl ids, o = .renewWorkerFetchOwnership requestId owner .upstreamFetch ttl ids

/-- What any stage asks for that is about no budget. -/
def Steady (owner : OwnerToken) (requestId : Uuid) (o : Op) : Prop :=
  Plain owner requestId o ∨ OnLease owner requestId o

/-- The same, and the two operations on the lease that any stage may need. -/
def Routine (owner : OwnerToken) (requestId : Uuid) (o : Op) : Prop :=
  LeaseFree owner requestId o ∨ o = .lease (.releaseLease .upstreamFetch owner) ∨
    ∃ ttl ids, o = .renewWorkerFetchOwnership requestId owner .upstreamFetch ttl ids

section Routines

variable {w : WorkerConfig} {item : QueueItem}

/-- A program of the pass on its item. -/
abbrev Routinely {β : Type} (w : WorkerConfig) (item : QueueItem) (p : Program β) : Prop :=
  p.AllOps (Routine w.ownerToken item.requestId)

/-- One that leaves the lease alone. -/
abbrev Aside {β : Type} (w : WorkerConfig) (item : QueueItem) (p : Program β) : Prop :=
  p.AllOps (LeaseFree w.ownerToken item.requestId)

/-- One that is plain, or steady. -/
abbrev Plainly {β : Type} (w : WorkerConfig) (item : QueueItem) (p : Program β) : Prop :=
  p.AllOps (Plain w.ownerToken item.requestId)

abbrev Steadily {β : Type} (w : WorkerConfig) (item : QueueItem) (p : Program β) : Prop :=
  p.AllOps (Steady w.ownerToken item.requestId)

theorem Aside.routinely {β : Type} {p : Program β} (h : Aside w item p) : Routinely w item p :=
  h.mono fun _ ho => Or.inl ho

theorem Plainly.aside {β : Type} {p : Program β} (h : Plainly w item p) : Aside w item p :=
  h.mono fun _ ho => ho.leaseFree

theorem Plainly.steadily {β : Type} {p : Program β} (h : Plainly w item p) :
    Steadily w item p :=
  h.mono fun _ ho => Or.inl ho

theorem Plainly.routinely {β : Type} {p : Program β} (h : Plainly w item p) :
    Routinely w item p :=
  h.aside.routinely

theorem Steadily.routinely {β : Type} {p : Program β} (h : Steadily w item p) :
    Routinely w item p :=
  h.mono fun _ ho => ho.imp Plain.leaseFree id

theorem plain_utcNow : Plainly w item utcNow :=
  .call trivial

theorem steadily_releaseLease :
    Steadily w item (releaseLease Limiter.leaseName w.ownerToken) :=
  .call (Or.inr (Or.inl rfl))

theorem plain_completeQueueItem : Plainly w item (completeQueueItem item.requestId) :=
  .bind plain_utcNow fun _ => .call rfl

theorem plain_delay (nextAttemptAt : Option Int) (category message : Option String) :
    Plainly w item
      (releaseOrDelayQueueItem item.requestId nextAttemptAt category message .delayed) :=
  .bind plain_utcNow fun _ => .call ⟨rfl, Or.inl rfl⟩

/-- The response was final. -/
theorem plain_fail (message : Option String) :
    Plainly w item
      (releaseOrDelayQueueItem item.requestId none (some "non_retryable") message .failed) :=
  .bind plain_utcNow fun _ => .call ⟨rfl, Or.inr ⟨rfl, rfl⟩⟩

theorem aside_fail (nextAttemptAt : Option Int) (category message : Option String) :
    Aside w item
      (releaseOrDelayQueueItem item.requestId nextAttemptAt category message .failed) :=
  .bind plain_utcNow.aside fun _ => .call ⟨rfl, Or.inr rfl⟩

theorem plain_releaseIdFetchReservations (ids : List String) :
    Plainly w item (releaseIdFetchReservations ids w.ownerToken) := by
  unfold releaseIdFetchReservations
  split
  · exact .ret ()
  · exact .bind plain_utcNow fun _ => .call rfl

theorem plain_getPapersByIds (ids : List String) :
    Plainly w item (getPapersByIds ids) := by
  unfold getPapersByIds
  split
  · exact .ret []
  · exact .call trivial

theorem plain_recordCacheFailure (category message : String) (status : CacheStatus)
    (cooldownUntil : Option Int) (upstreamStatus : Option Int) (count : Nat) :
    Plainly w item (recordCacheFailure item.cacheKey item.request category message status
      cooldownUntil upstreamStatus count) :=
  .bind plain_utcNow fun _ => .call trivial

theorem plain_recordCompletedCacheEntry (papers : List ArxivPaper) (total : Option Nat)
    (upstreamStatus : Int) (count : Nat) :
    Plainly w item (recordCompletedCacheEntry item.cacheKey item.request papers total
      upstreamStatus count) :=
  .bind plain_utcNow fun _ => .bind plain_utcNow fun _ => .call trivial

theorem plain_getReadableCompletedCache :
    Plainly w item (getReadableCompletedCache item.cacheKey) := by
  refine .bind (.call trivial) fun entry => ?_
  cases entry with
  | none => exact .ret none
  | some entry =>
      simp only
      split
      · exact .ret none
      · refine .bind ?_ fun reason => ?_
        · refine .bind (.call trivial) fun _ => .bind (.call trivial) fun _ =>
            .bind (.call trivial) fun _ => ?_
          split
          · exact .ret _
          · split
            · exact .ret _
            · split
              · exact .ret _
              · exact .ret _
        · cases reason with
          | none => exact .ret _
          | some reason => exact .bind (.call trivial) fun _ => .ret none

theorem plain_queueItemUpstreamDeadline :
    Plainly w item (queueItemUpstreamDeadline item.requestId) :=
  .call rfl

theorem aside_checkDeadlines :
    Aside w item (checkQueueItemUpstreamRequestDeadlines item.requestId) :=
  .call rfl

theorem aside_reserve : Aside w item (reserveQueueItemUpstreamRequest item.requestId) :=
  .call rfl

/-! ## The stages of a pass -/

theorem plain_releaseIdPlan (plan : Option IdListFetchPlan) :
    Plainly w item (releaseIdPlan w plan) := by
  cases plan with
  | none => exact .ret ()
  | some plan => exact plain_releaseIdFetchReservations _

theorem plain_planIdListFetch : Plainly w item (planIdListFetch w item) := by
  unfold planIdListFetch
  split
  · exact .ret none
  · refine .bind (plain_getPapersByIds _) fun papersById => ?_
    simp only
    split
    · exact .ret _
    · refine .bind (.call ⟨rfl, rfl⟩) fun reservations => ?_
      split
      · exact .ret _
      · exact .ret _

theorem plain_revalidate (plan : IdListFetchPlan) (ttl : Int) :
    Plainly w item (revalidateIdListFetchPlan w item plan ttl) := by
  unfold revalidateIdListFetchPlan
  split
  · exact .ret plan
  · refine .bind (plain_getPapersByIds _) fun papersById => ?_
    refine .bind (plain_releaseIdFetchReservations _) fun _ => ?_
    simp only
    split
    · exact .ret _
    · split
      · refine .bind ?_ fun renewed => ?_
        · unfold renewIdFetchReservations
          split
          · exact .ret true
          · exact .call rfl
        · split
          · exact .bind plain_utcNow fun _ => .ret _
          · exact .ret _
      · refine .bind (.ret false) fun renewed => ?_
        split
        · exact .bind plain_utcNow fun _ => .ret _
        · exact .ret _

theorem plain_recordCachedIdList (plan : IdListFetchPlan) :
    Plainly w item (recordCachedIdList item plan) := by
  unfold recordCachedIdList
  split
  · exact .raise _
  · exact .bind (plain_recordCompletedCacheEntry _ _ _ _) fun _ => .ret _

theorem steadily_deferBudgetedItem (plan : Option IdListFetchPlan) :
    Steadily w item (deferBudgetedItem w item plan) :=
  .bind steadily_releaseLease fun _ => .bind plain_utcNow.steadily fun _ =>
    .bind (plain_delay _ _ _).steadily fun _ =>
    .bind (plain_releaseIdPlan plan).steadily fun _ => .ret _

theorem routinely_endBudgetedItem (plan : Option IdListFetchPlan) (budgetError : String) :
    Routinely w item (endBudgetedItem w item plan budgetError) := by
  unfold endBudgetedItem
  split
  · exact (steadily_deferBudgetedItem plan).routinely
  · exact .bind steadily_releaseLease.routinely fun _ =>
      .bind (plain_recordCacheFailure _ _ _ _ _ _).routinely fun _ =>
      .bind (aside_fail _ _ _).routinely fun _ =>
      .bind (plain_releaseIdPlan plan).routinely fun _ => .ret _

theorem steadily_fetchOwnershipFailure (plan : Option IdListFetchPlan) (reason : String) :
    Steadily w item (fetchOwnershipFailure w item plan reason) := by
  refine .bind steadily_releaseLease fun _ => ?_
  split
  · exact .bind plain_utcNow.steadily fun _ => .bind (plain_delay _ _ _).steadily fun _ =>
      .bind (plain_releaseIdPlan plan).steadily fun _ => .ret _
  · exact .bind (plain_releaseIdPlan plan).steadily fun _ => .ret _

theorem steadily_fence (plan : Option IdListFetchPlan) (ttl : Int) :
    Steadily w item (fence w item plan ttl) :=
  .call (Or.inr (Or.inr ⟨ttl, _, rfl⟩))

/-- The limiter has refused: the item is put off. -/
theorem plain_delayRefused (plan : Option IdListFetchPlan) (decision : RateLimitDecision) :
    Plainly w item (delayRefused w item plan decision) := by
  have hrest : ∀ (nextAttempt : Int) (r : WorkerPassResult), Plainly w item (do
      releaseOrDelayQueueItem item.requestId (some nextAttempt) decision.blockedReason
        decision.blockedReason .delayed
      releaseIdPlan w plan
      pure r) := fun _ _ =>
    .bind (plain_delay _ _ _) fun _ => .bind (plain_releaseIdPlan plan) fun _ => .ret _
  unfold delayRefused
  cases decision.cooldownUntil with
  | some cooldown => exact .bind (.ret cooldown) fun _ => hrest _ _
  | none => exact .bind plain_utcNow fun _ => .bind (.ret _) fun _ => hrest _ _

/-- A cache hit of the gate: the lease goes back and the item is completed. -/
theorem steadily_gateCacheHit (plan : Option IdListFetchPlan) (r : WorkerPassResult) :
    Steadily w item (do
      releaseLease Limiter.leaseName w.ownerToken
      completeQueueItem item.requestId
      releaseIdPlan w plan
      pure (plan, some r)) :=
  .bind steadily_releaseLease fun _ => .bind plain_completeQueueItem.steadily fun _ =>
    .bind (plain_releaseIdPlan plan).steadily fun _ => .ret _

/-- The gate finds nothing left to fetch. -/
theorem steadily_gateRecorded (plan : IdListFetchPlan) (r : Nat → WorkerPassResult) :
    Steadily w item (do
      releaseLease Limiter.leaseName w.ownerToken
      let papersTotal ← recordCachedIdList item plan
      completeQueueItem item.requestId
      releaseIdPlan w (some plan)
      pure (some plan, some (r papersTotal))) :=
  .bind steadily_releaseLease fun _ => .bind (plain_recordCachedIdList plan).steadily fun _ =>
    .bind plain_completeQueueItem.steadily fun _ =>
    .bind (plain_releaseIdPlan (some plan)).steadily fun _ => .ret _

/-- The gate finds the ids reserved by another pass. -/
theorem steadily_gateReserved (plan : IdListFetchPlan) (blockedUntil : Int) (message : String)
    (r : WorkerPassResult) :
    Steadily w item (do
      releaseLease Limiter.leaseName w.ownerToken
      releaseOrDelayQueueItem item.requestId (some blockedUntil) (some "id_fetch_reserved")
        (some message) .delayed
      releaseIdPlan w (some plan)
      pure (some plan, some r)) :=
  .bind steadily_releaseLease fun _ => .bind (plain_delay _ _ _).steadily fun _ =>
    .bind (plain_releaseIdPlan (some plan)).steadily fun _ => .ret _

theorem plain_remainingAfterRecheck (deadline : Option Int) :
    Plainly w item (remainingAfterRecheck w deadline) := by
  cases deadline with
  | none => exact .ret _
  | some deadline => exact .bind plain_utcNow fun _ => .ret _

/-- What follows the report of a request that got no result. -/
theorem plain_putOff (plan : Option IdListFetchPlan) (category message : String)
    (status : CacheStatus) (nextAttemptAt cooldownUntil upstreamStatus : Option Int)
    (r : WorkerPassResult) :
    Plainly w item (do
      recordCacheFailure item.cacheKey item.request category message status cooldownUntil
        upstreamStatus 1
      releaseOrDelayQueueItem item.requestId nextAttemptAt (some category) (some message) .delayed
      releaseIdPlan w plan
      pure r) :=
  .bind (plain_recordCacheFailure _ _ _ _ _ _) fun _ =>
    .bind (plain_delay _ _ _) fun _ => .bind (plain_releaseIdPlan plan) fun _ => .ret _

theorem plain_giveUp (plan : Option IdListFetchPlan) (message : String)
    (upstreamStatus : Option Int) (r : WorkerPassResult) :
    Plainly w item (do
      recordCacheFailure item.cacheKey item.request "non_retryable" message .failed none
        upstreamStatus 1
      releaseOrDelayQueueItem item.requestId none (some "non_retryable") (some message) .failed
      releaseIdPlan w plan
      pure r) :=
  .bind (plain_recordCacheFailure _ _ _ _ _ _) fun _ =>
    .bind (plain_fail _) fun _ => .bind (plain_releaseIdPlan plan) fun _ => .ret _

theorem plain_completeFetched (plan : Option IdListFetchPlan) (r : WorkerPassResult) :
    Plainly w item (do
      completeQueueItem item.requestId
      releaseIdPlan w plan
      pure r) :=
  .bind plain_completeQueueItem fun _ => .bind (plain_releaseIdPlan plan) fun _ => .ret _

end Routines

/-! ## The limiter -/

/-- Nothing but the clock, the leases and the rate state. -/
def Beside : Op → Prop
  | .clock _ | .lease _ | .rate _ => True
  | _ => False

/-- What the limiter asks for: the time, its own lease, and the rate state. -/
def Limiting : Op → Prop
  | .clock .utcNow | .clock (.sleep _) | .clock (.awake _) | .clock (.jitter _) | .rate _ => True
  | .lease (.acquireLease name _ _) | .lease (.releaseLease name _) => name = Limiter.leaseName
  | .lease (.renewLeasesIfOwned renewals) => ∀ r ∈ renewals, r.name = Limiter.leaseName
  | _ => False

theorem Limiting.beside {o : Op} (h : Limiting o) : Beside o := by
  unfold Limiting at h
  split at h <;> first | exact trivial | exact h.elim

theorem limiting_utcNow : utcNow.AllOps Limiting :=
  .call trivial

theorem limiting_releaseLease (owner : OwnerToken) :
    (releaseLease Limiter.leaseName owner).AllOps Limiting :=
  .call rfl

theorem limiting_timeSleep (duration : Int) : (timeSleep duration).AllOps Limiting :=
  .bind (.call trivial) fun _ => .call trivial

theorem limiting_report (event : DiagnosticEvent) (owner : OwnerToken) :
    ((recordEvent event).tryFinally (releaseLease Limiter.leaseName owner)).AllOps Limiting :=
  .tryFinally (.call trivial) (limiting_releaseLease owner)

theorem limiting_afterSuccess (owner : OwnerToken) (status : Int) :
    (Limiter.afterSuccess owner status).AllOps Limiting :=
  .bind limiting_utcNow fun _ => .bind (.call trivial) fun _ => .bind (.call trivial) fun _ =>
    limiting_report _ _

theorem limiting_afterFailure (owner : OwnerToken) (status : Option Int) (message : String) :
    (Limiter.afterFailure owner status message).AllOps Limiting :=
  .bind limiting_utcNow fun _ => .bind (.call trivial) fun _ => .bind (.call trivial) fun _ =>
    limiting_report _ _

theorem limiting_afterRateLimit (d : Deployment) (owner : OwnerToken) (retryAfter : Option Int)
    (statusCode : Int) (message : Option String) :
    (Limiter.afterRateLimit d owner retryAfter statusCode message).AllOps Limiting := by
  refine .bind limiting_utcNow fun _ => .bind (.call trivial) fun _ => .bind ?_ fun _ => ?_
  · unfold Limiter.effectiveCooldown
    dsimp only
    split
    · exact .bind (.call trivial) fun _ => .ret _
    · exact .ret _
  · dsimp only
    split
    · exact .raise _
    · exact .bind (.call trivial) fun _ => .bind (limiting_report _ _) fun _ => .ret _

theorem limiting_beforeRequest (d : Deployment) (owner : OwnerToken) :
    (Limiter.beforeRequest d owner).AllOps Limiting := by
  refine .bind (.call rfl) fun acquired => ?_
  split
  · exact .ret _
  · refine .bind limiting_utcNow fun _ => .bind (.call trivial) fun _ => ?_
    split
    · exact .bind (limiting_releaseLease _) fun _ => .ret _
    · refine .bind (.call ?_) fun renewed => ?_
      · intro r hr
        rw [List.mem_singleton] at hr
        rw [hr]
      · split
        · exact .ret _
        · refine .bind (.tryExcept (.bind (.call trivial) fun _ => .call trivial) fun e => ?_)
            fun _ => .ret _
          dsimp only
          split
          · exact .raise _
          · exact .bind (limiting_releaseLease _) fun _ => .raise _

theorem beside_afterSuccess (owner : OwnerToken) (status : Int) :
    (Limiter.afterSuccess owner status).AllOps Beside :=
  (limiting_afterSuccess owner status).mono fun _ => Limiting.beside

theorem beside_afterFailure (owner : OwnerToken) (status : Option Int) (message : String) :
    (Limiter.afterFailure owner status message).AllOps Beside :=
  (limiting_afterFailure owner status message).mono fun _ => Limiting.beside

theorem beside_afterRateLimit (d : Deployment) (owner : OwnerToken) (retryAfter : Option Int)
    (statusCode : Int) (message : Option String) :
    (Limiter.afterRateLimit d owner retryAfter statusCode message).AllOps Beside :=
  (limiting_afterRateLimit d owner retryAfter statusCode message).mono fun _ => Limiting.beside

theorem beside_beforeRequest (d : Deployment) (owner : OwnerToken) :
    (Limiter.beforeRequest d owner).AllOps Beside :=
  (limiting_beforeRequest d owner).mono fun _ => Limiting.beside

/-! ## The whole pass -/

/-- What a pass asks for from the answer of the server on. -/
def Reporting (owner : OwnerToken) (requestId : Uuid) (o : Op) : Prop :=
  Steady owner requestId o ∨ Limiting o

/-- What a pass asks for. -/
def Passing : Op → Prop
  | .queue _ | .library _ | .initSchema | .renewWorkerFetchOwnership ..
  | .upstream (.fetchBegin _) | .upstream .fetchEnd => True
  | o => Limiting o

theorem Limiting.passing {o : Op} (h : Limiting o) : Passing o := by
  unfold Passing
  split <;> first | exact trivial | exact h

/-- What a pass asks for once it works on an item. -/
inductive Bound (owner : OwnerToken) (requestId : Uuid) : Op → Prop
  | routine {o : Op} : Routine owner requestId o → Bound owner requestId o
  | limiting {o : Op} : Limiting o → Bound owner requestId o
  | fetchBegin (call : FetchCall) : Bound owner requestId (.upstream (.fetchBegin call))
  | fetchEnd : Bound owner requestId (.upstream .fetchEnd)

theorem Routine.passing {owner : OwnerToken} {requestId : Uuid} {o : Op}
    (h : Routine owner requestId o) : Passing o := by
  rcases h with hfree | rfl | ⟨ttl, ids, rfl⟩
  · unfold LeaseFree at hfree
    split at hfree <;> first | exact trivial | exact hfree.elim
  · exact Limiting.passing rfl
  · trivial

theorem Bound.passing {owner : OwnerToken} {requestId : Uuid} {o : Op}
    (h : Bound owner requestId o) : Passing o := by
  cases h with
  | routine h => exact h.passing
  | limiting h => exact h.passing
  | fetchBegin call => trivial
  | fetchEnd => trivial

section WholePass

variable {w : WorkerConfig} {item : QueueItem}

theorem Plainly.reporting {β : Type} {p : Program β} (h : Plainly w item p) :
    p.AllOps (Reporting w.ownerToken item.requestId) :=
  h.mono fun _ ho => Or.inl (Or.inl ho)

theorem reporting_of_limiting {β : Type} {p : Program β} (h : p.AllOps Limiting) :
    p.AllOps (Reporting w.ownerToken item.requestId) :=
  h.mono fun _ ho => Or.inr ho

theorem reporting_onFetchError (plan : Option IdListFetchPlan) (e : Exn) :
    (onFetchError w item plan e).AllOps (Reporting w.ownerToken item.requestId) := by
  cases e with
  | rateLimitedError retryAfter message statusCode =>
      exact .bind (reporting_of_limiting (limiting_afterRateLimit _ _ _ _ _)) fun _ =>
        (plain_putOff plan "rate_limited" message .rateLimited _ _ _ _).reporting
  | transientFetchError message statusCode =>
      exact .bind (reporting_of_limiting (limiting_afterFailure _ _ _)) fun _ =>
        .bind plain_utcNow.reporting fun _ =>
        (plain_putOff plan "transient" message .failed _ _ _ _).reporting
  | nonRetryableFetchError message statusCode =>
      exact .bind (reporting_of_limiting (limiting_afterFailure _ _ _)) fun _ =>
        (plain_giveUp plan message _ _).reporting
  | huldraFetchError message statusCode =>
      exact .bind (reporting_of_limiting (limiting_afterFailure _ _ _)) fun _ =>
        .bind (plain_releaseIdPlan plan).reporting fun _ => .raise _
  | _ => exact .raise _

theorem reporting_onFetched (plan : Option IdListFetchPlan) (papers : List ArxivPaper)
    (total : Option Nat) (upstreamStatus : Int) :
    (onFetched w item plan papers total upstreamStatus).AllOps
      (Reporting w.ownerToken item.requestId) :=
  .bind (plain_recordCompletedCacheEntry _ _ _ _).reporting fun _ =>
    .bind (reporting_of_limiting (limiting_afterSuccess _ _)) fun _ =>
    (plain_completeFetched plan _).reporting

theorem reporting_onFetchResult (plan : Option IdListFetchPlan) (fetched : FetchResult) :
    (onFetchResult w item plan fetched).AllOps (Reporting w.ownerToken item.requestId) := by
  unfold onFetchResult
  split
  · exact reporting_onFetched _ _ _ _
  · simp only
    split
    · exact .bind (reporting_of_limiting (limiting_afterFailure _ _ _)) fun _ =>
        (plain_giveUp _ _ _ _).reporting
    · split
      · exact .raise _
      · exact reporting_onFetched _ _ _ _

theorem Routinely.bound {β : Type} {p : Program β} (h : Routinely w item p) :
    p.AllOps (Bound w.ownerToken item.requestId) :=
  h.mono fun _ => .routine

theorem bound_plainly (w : WorkerConfig) (item : QueueItem) {β : Type} {p : Program β}
    (h : Plainly w item p) : p.AllOps (Bound w.ownerToken item.requestId) :=
  h.routinely.bound

theorem bound_aside (w : WorkerConfig) (item : QueueItem) {β : Type} {p : Program β}
    (h : Aside w item p) : p.AllOps (Bound w.ownerToken item.requestId) :=
  h.routinely.bound

theorem bound_of_limiting {β : Type} {p : Program β} (h : p.AllOps Limiting) :
    p.AllOps (Bound w.ownerToken item.requestId) :=
  h.mono fun _ => .limiting

theorem bound_fetchAndReport (plan : Option IdListFetchPlan) (request : ArxivRequest) :
    (fetchAndReport w item plan request).AllOps (Bound w.ownerToken item.requestId) := by
  have hreporting : ∀ o, Reporting w.ownerToken item.requestId o →
      Bound w.ownerToken item.requestId o := by
    rintro o (hsteady | hlimiting)
    · exact .routine (hsteady.imp Plain.leaseFree id)
    · exact .limiting hlimiting
  exact .handle (.bind (.call (.fetchBegin _)) fun _ => .call .fetchEnd)
    (fun fetched => (reporting_onFetchResult plan fetched).mono hreporting)
    fun e => (reporting_onFetchError plan e).mono hreporting

theorem bound_endBudgetedItem (plan : Option IdListFetchPlan) (budgetError : String) :
    (endBudgetedItem w item plan budgetError).AllOps (Bound w.ownerToken item.requestId) :=
  (routinely_endBudgetedItem plan budgetError).bound

theorem bound_fetchWithinDeadline (plan : Option IdListFetchPlan) :
    (fetchWithinDeadline w item plan).AllOps (Bound w.ownerToken item.requestId) := by
  refine .bind (bound_plainly w item plain_queueItemUpstreamDeadline) fun budgetDeadline => ?_
  cases budgetDeadline with
  | none => exact bound_fetchAndReport plan _
  | some deadline =>
      refine .bind (bound_of_limiting limiting_utcNow) fun now => ?_
      split
      · exact bound_fetchAndReport plan _
      · refine .bind (bound_aside w item aside_checkDeadlines) fun budgetError => ?_
        cases budgetError with
        | some error => exact bound_endBudgetedItem plan error
        | none =>
            exact .bind (bound_plainly w item plain_queueItemUpstreamDeadline) fun deadline =>
              .bind (bound_plainly w item (plain_remainingAfterRecheck deadline)) fun _ =>
              bound_fetchAndReport plan _

/-- The gate is made of the fence, cache reads and endings. -/
theorem bound_gateFetchOwnership (plan : Option IdListFetchPlan) (ttl : Int) :
    (gateFetchOwnership w item plan ttl).AllOps (Bound w.ownerToken item.requestId) := by
  have hclose : ∀ plan,
      (closeGate w item plan ttl).AllOps (Bound w.ownerToken item.requestId) := by
    intro plan
    refine .bind (steadily_fence plan ttl).routinely.bound fun reason => ?_
    cases reason with
    | some reason =>
        exact .bind (steadily_fetchOwnershipFailure plan reason).routinely.bound fun _ => .ret _
    | none => exact .ret _
  refine .bind (steadily_fence plan ttl).routinely.bound fun reason => ?_
  cases reason with
  | some reason =>
      exact .bind (steadily_fetchOwnershipFailure plan reason).routinely.bound fun _ => .ret _
  | none =>
      refine .bind (bound_plainly w item plain_getReadableCompletedCache) fun cached => ?_
      dsimp only
      split
      · exact (steadily_gateCacheHit plan _).routinely.bound
      · split
        · refine .bind (bound_plainly w item (plain_revalidate _ ttl)) fun plan' => ?_
          dsimp only
          split
          · exact (steadily_gateReserved plan' _ _ _).routinely.bound
          · split
            · exact (steadily_gateRecorded plan' _).routinely.bound
            · exact hclose _
        · exact hclose none

theorem bound_fetchAdmitted (plan : Option IdListFetchPlan) (waitSeconds : Int) :
    (fetchAdmitted w item plan waitSeconds).AllOps (Bound w.ownerToken item.requestId) := by
  have hcharged : ∀ plan ttl,
      (fetchCharged w item plan ttl).AllOps (Bound w.ownerToken item.requestId) := by
    intro plan ttl
    refine .bind (bound_gateFetchOwnership plan ttl) fun gate => ?_
    split
    · exact .ret _
    · refine .bind (bound_aside w item aside_checkDeadlines) fun budgetError => ?_
      cases budgetError with
      | some error => exact bound_endBudgetedItem gate.1 error
      | none => exact bound_fetchWithinDeadline gate.1
  have hcharge : ∀ plan ttl,
      (chargeAndFetch w item plan ttl).AllOps (Bound w.ownerToken item.requestId) := by
    intro plan ttl
    refine .bind (bound_aside w item aside_reserve) fun reserveError => ?_
    cases reserveError with
    | some error => exact bound_endBudgetedItem plan error
    | none =>
        refine .bind (bound_aside w item aside_checkDeadlines) fun budgetError => ?_
        cases budgetError with
        | some error => exact bound_endBudgetedItem plan error
        | none => exact hcharged plan ttl
  have hgate : (gateAndCharge w item plan).AllOps (Bound w.ownerToken item.requestId) := by
    refine .bind (bound_gateFetchOwnership plan _) fun gate => ?_
    split
    · exact .ret _
    · exact hcharge _ _
  unfold fetchAdmitted
  split
  · exact .bind (bound_of_limiting (limiting_timeSleep _)) fun _ => hgate
  · exact hgate

theorem bound_passLimiter (plan : Option IdListFetchPlan) :
    (passLimiter w item plan).AllOps (Bound w.ownerToken item.requestId) := by
  refine .bind (bound_of_limiting (limiting_beforeRequest _ _)) fun decision => ?_
  split
  · exact bound_fetchAdmitted plan _
  · exact bound_plainly w item (plain_delayRefused plan decision)

theorem bound_workPlanned (plan : Option IdListFetchPlan) :
    (workPlanned w item plan).AllOps (Bound w.ownerToken item.requestId) := by
  unfold workPlanned
  split
  · exact bound_passLimiter none
  · split
    · exact .bind (bound_plainly w item (plain_delay _ _ _)) fun _ => .ret _
    · split
      · exact .bind (bound_plainly w item (plain_recordCachedIdList _)) fun _ =>
          .bind (bound_plainly w item plain_completeQueueItem) fun _ => .ret _
      · exact bound_passLimiter _

theorem bound_workClaimed : (workClaimed w item).AllOps (Bound w.ownerToken item.requestId) := by
  refine .bind (bound_plainly w item plain_getReadableCompletedCache) fun cached => ?_
  dsimp only
  split
  · exact .bind (bound_plainly w item plain_completeQueueItem) fun _ => .ret _
  · exact .bind (bound_plainly w item plain_planIdListFetch) fun plan => bound_workPlanned plan

theorem passing_runOnce (targets : Option (List CacheKey)) :
    (runOnce w targets).AllOps Passing := by
  refine .bind (.call trivial) fun _ => .bind ?_ fun item => ?_
  · unfold claimNextQueueItem
    split
    · exact .ret _
    · exact .call trivial
  · cases item with
    | none => exact .ret _
    | some item => exact bound_workClaimed.mono fun _ => Bound.passing

end WholePass

/-! ## The clients beside the workers -/

/-- A call of the queue that is no worker's. -/
def Feeding : Op → Prop
  | .clock .utcNow | .queue (.enqueueRequestForWork ..) | .enqueueRefreshIfDue ..
  | .queue (.createUpstreamRequestBudget ..) | .queue (.failActiveUpstreamBudgetItems ..) => True
  | _ => False

theorem feeding_program (d : Deployment) (c : Client) (pid : Nat) :
    (match c with
    | .runOnce _ | .harvestOai _ => True
    | _ => (c.program d pid).AllOps Feeding) := by
  cases c with
  | runOnce targets => trivial
  | harvestOai request => trivial
  | enqueueRequestForWork request cacheKey workKind budgetId =>
      exact .bind (.bind (.call trivial) fun _ => .call trivial) fun _ => .ret _
  | enqueueRefreshIfDue request cacheKey =>
      exact .bind (.bind (.call trivial) fun _ => .call trivial) fun _ => .ret _
  | createUpstreamRequestBudget maxRequests deadlineAt =>
      refine .bind ?_ fun _ => .ret _
      unfold createUpstreamRequestBudget
      split
      · exact .raise _
      · exact .bind (.call trivial) fun _ => .call trivial
  | failActiveUpstreamBudgetItems budgetId category message =>
      exact .bind (.bind (.call trivial) fun _ => .call trivial) fun _ => .ret _

end Worker
end Huldra
