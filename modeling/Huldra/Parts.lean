import Huldra.Broker
import Huldra.Process.Made
import Huldra.Worker.Routine

/-!
# Parts — the programs over the store, as put together from operations and limiter calls

Whatever a program does, the rate state is written by the four calls of the limiter, cache entries
are completed as slices and fail as failures, and budgets are named where the program has one to
name.  One lemma for each function says so; what is to be shown of all programs is then shown of
these parts.
-/

namespace Huldra

open Process (Prog Made)

/-- The operations a program asks for outside the limiter.  `funds` are the budgets it queues work
for, and with `opens` it may open one. -/
def Ordinary (funds : Option Uuid → Prop) (opens : Prop) : Op → Prop
  | .rate (.setRateState _) => False
  | .queue (.createUpstreamRequestBudget ..) => opens
  | .queue (.enqueueRequestForWork _ _ _ budgetId _ _) => funds budgetId
  | .library (.recordCompletedCacheEntry write) => write.coverageStatus ≠ .unknown
  | .library (.recordCacheFailure write) => write.status ≠ .completed
  | _ => True

/-- What the programs are put together from. -/
inductive Part (d : Deployment) (funds : Option Uuid → Prop) (opens : Prop) :
    ∀ β : Type, Program β → Prop where
  | op {o : Op} : Ordinary funds opens o → Part d funds opens o.Res (perform o)
  | beforeRequest (owner : OwnerToken) : Part d funds opens _ (Limiter.beforeRequest d owner)
  | afterSuccess (owner : OwnerToken) (status : Int) :
      Part d funds opens _ (Limiter.afterSuccess owner status)
  | afterRateLimit (owner : OwnerToken) (retryAfterSeconds : Option Int) (statusCode : Int)
      (errorMessage : Option String) :
      Part d funds opens _ (Limiter.afterRateLimit d owner retryAfterSeconds
        statusCode errorMessage)
  | afterFailure (owner : OwnerToken) (status : Option Int) (errorMessage : String) :
      Part d funds opens _ (Limiter.afterFailure owner status errorMessage)

section Parts

variable {d : Deployment} {funds : Option Uuid → Prop} {opens : Prop}

/-- A program put together from these parts. -/
abbrev MadeOf (d : Deployment) (funds : Option Uuid → Prop) (opens : Prop) {β : Type}
    (p : Program β) : Prop :=
  Made (Part d funds opens) p

theorem made_op {o : Op} (h : Ordinary funds opens o) : MadeOf d funds opens (perform o) :=
  .part (.op h)

/-- What the parts ask for: their own operation, or what the limiter asks for. -/
theorem Part.allOps {P : Op → Prop} (hop : ∀ o, Ordinary funds opens o → P o)
    (hlimiting : ∀ o, Worker.Limiting o → P o) {β : Type} {p : Program β}
    (h : Part d funds opens β p) : p.AllOps P := by
  cases h with
  | op ho => exact .call (hop _ ho)
  | beforeRequest owner => exact (Worker.limiting_beforeRequest d owner).mono hlimiting
  | afterSuccess owner status => exact (Worker.limiting_afterSuccess owner status).mono hlimiting
  | afterRateLimit owner retryAfter statusCode message =>
      exact (Worker.limiting_afterRateLimit d owner retryAfter statusCode message).mono hlimiting
  | afterFailure owner status message =>
      exact (Worker.limiting_afterFailure owner status message).mono hlimiting

theorem made_utcNow : MadeOf d funds opens utcNow :=
  made_op trivial

theorem made_uuid4 : MadeOf d funds opens uuid4 :=
  made_op trivial

theorem made_timeSleep (duration : Int) : MadeOf d funds opens (timeSleep duration) :=
  .bind (made_op trivial) fun _ => made_op trivial

theorem made_tryExceptException {β : Type} {p : Program β} {onRaise : Exn → Program β}
    (hp : MadeOf d funds opens p) (h : ∀ e, MadeOf d funds opens (onRaise e)) :
    MadeOf d funds opens (tryExceptException p onRaise) := by
  refine .tryExcept hp fun e => ?_
  split
  · exact .raise e
  · exact h e

/-! ## The methods of the store -/

theorem made_enqueueRequestForWork (request : ArxivRequest) (cacheKey : CacheKey)
    (workKind : QueueWorkKind) {budgetId : Option Uuid} (timeout : Timeout) (h : funds budgetId) :
    MadeOf d funds opens (enqueueRequestForWork request cacheKey workKind budgetId timeout) :=
  .bind made_utcNow fun _ => made_op h

theorem made_enqueueRefreshIfDue (request : ArxivRequest) (cacheKey : CacheKey)
    (timeout : Timeout) :
    MadeOf d funds opens (enqueueRefreshIfDue request cacheKey timeout) :=
  .bind made_utcNow fun _ => made_op trivial

theorem made_createUpstreamRequestBudget (maxRequests : Nat) (deadlineAt : Option Int)
    (h : opens) : MadeOf d funds opens (createUpstreamRequestBudget maxRequests deadlineAt) := by
  unfold createUpstreamRequestBudget
  split
  · exact .raise _
  · exact .bind made_utcNow fun _ => made_op h

theorem made_failActiveUpstreamBudgetItems (budgetId : Uuid) (category message : String) :
    MadeOf d funds opens (failActiveUpstreamBudgetItems budgetId category message) :=
  .bind made_utcNow fun _ => made_op trivial

theorem made_completeQueueItem (requestId : Uuid) :
    MadeOf d funds opens (completeQueueItem requestId) :=
  .bind made_utcNow fun _ => made_op trivial

theorem made_releaseOrDelay (requestId : Uuid) (nextAttemptAt : Option Int)
    (category message : Option String) (status : RequestStatus) :
    MadeOf d funds opens
      (releaseOrDelayQueueItem requestId nextAttemptAt category message status) :=
  .bind made_utcNow fun _ => made_op trivial

theorem made_renewReservations (ids : List String) (owner : OwnerToken) (ttl : Int) :
    MadeOf d funds opens (renewIdFetchReservations ids owner ttl) := by
  unfold renewIdFetchReservations
  split
  · exact .ret _
  · exact made_op trivial

theorem made_releaseReservations (ids : List String) (owner : OwnerToken) :
    MadeOf d funds opens (releaseIdFetchReservations ids owner) := by
  unfold releaseIdFetchReservations
  split
  · exact .ret _
  · exact .bind made_utcNow fun _ => made_op trivial

theorem made_getReadableCompletedCache (cacheKey : CacheKey) :
    MadeOf d funds opens (getReadableCompletedCache cacheKey) := by
  refine .bind (made_op trivial) fun entry => ?_
  split
  · exact .ret _
  · split
    · exact .ret _
    · refine .bind ?_ fun reason => ?_
      · refine .bind (made_op trivial) fun _ => .bind (made_op trivial) fun _ =>
          .bind (made_op trivial) fun _ => ?_
        split
        · exact .ret _
        · split
          · exact .ret _
          · split
            · exact .ret _
            · exact .ret _
      · split
        · exact .ret _
        · exact .bind (made_op trivial) fun _ => .ret _

theorem made_getPapersByIds (ids : List String) : MadeOf d funds opens (getPapersByIds ids) := by
  unfold getPapersByIds
  split
  · exact .ret _
  · exact made_op trivial

theorem made_recordCompletedCacheEntry (cacheKey : CacheKey) (request : ArxivRequest)
    (papers : List ArxivPaper) (total : Option Nat) (status : Int) (count : Nat) :
    MadeOf d funds opens (recordCompletedCacheEntry cacheKey request papers total status count) :=
  .bind made_utcNow fun _ => .bind made_utcNow fun _ => made_op (by simp [Ordinary])

theorem made_recordCacheFailure (cacheKey : CacheKey) (request : ArxivRequest)
    (category message : String) {status : CacheStatus} (cooldownUntil upstreamStatus : Option Int)
    (count : Nat) (h : status ≠ .completed) :
    MadeOf d funds opens (recordCacheFailure cacheKey request category message status cooldownUntil
      upstreamStatus count) :=
  .bind made_utcNow fun _ => made_op h

/-! ## The worker -/

section Worker

open Worker

variable {w : WorkerConfig} {item : QueueItem}

theorem made_releaseIdPlan (plan : Option IdListFetchPlan) :
    MadeOf d funds opens (releaseIdPlan w plan) := by
  cases plan with
  | none => exact .ret _
  | some plan => exact made_releaseReservations _ _

theorem made_planIdListFetch : MadeOf d funds opens (planIdListFetch w item) := by
  unfold planIdListFetch
  split
  · exact .ret _
  · refine .bind (made_getPapersByIds _) fun papersById => ?_
    dsimp only
    split
    · exact .ret _
    · refine .bind (made_op trivial) fun reservations => ?_
      split
      · exact .ret _
      · exact .ret _

theorem made_revalidate (plan : IdListFetchPlan) (ttl : Int) :
    MadeOf d funds opens (revalidateIdListFetchPlan w item plan ttl) := by
  unfold revalidateIdListFetchPlan
  split
  · exact .ret _
  · refine .bind (made_getPapersByIds _) fun papersById =>
      .bind (made_releaseReservations _ _) fun _ => ?_
    dsimp only
    split
    · exact .ret _
    · split
      all_goals
        refine .bind (by first | exact made_renewReservations .. | exact .ret _) fun renewed => ?_
        split
        · exact .bind made_utcNow fun _ => .ret _
        · exact .ret _

theorem made_recordCachedIdList (plan : IdListFetchPlan) :
    MadeOf d funds opens (recordCachedIdList item plan) := by
  unfold recordCachedIdList
  split
  · exact .raise _
  · exact .bind (made_recordCompletedCacheEntry ..) fun _ => .ret _

theorem made_endBudgetedItem (plan : Option IdListFetchPlan) (budgetError : String) :
    MadeOf d funds opens (endBudgetedItem w item plan budgetError) := by
  unfold endBudgetedItem
  split
  · exact .bind (made_op trivial) fun _ => .bind made_utcNow fun _ =>
      .bind (made_releaseOrDelay ..) fun _ => .bind (made_releaseIdPlan plan) fun _ => .ret _
  · exact .bind (made_op trivial) fun _ => .bind (made_recordCacheFailure _ _ _ _ _ _ _ nofun)
      fun _ => .bind (made_releaseOrDelay ..) fun _ => .bind (made_releaseIdPlan plan) fun _ =>
        .ret _

theorem made_fetchOwnershipFailure (plan : Option IdListFetchPlan) (reason : String) :
    MadeOf d funds opens (fetchOwnershipFailure w item plan reason) := by
  refine .bind (made_op trivial) fun _ => ?_
  split
  · exact .bind made_utcNow fun _ => .bind (made_releaseOrDelay ..) fun _ =>
      .bind (made_releaseIdPlan plan) fun _ => .ret _
  · exact .bind (made_releaseIdPlan plan) fun _ => .ret _

theorem made_closeGate (plan : Option IdListFetchPlan) (ttl : Int) :
    MadeOf d funds opens (closeGate w item plan ttl) := by
  refine .bind (made_op trivial) fun reason => ?_
  cases reason with
  | some reason => exact .bind (made_fetchOwnershipFailure plan reason) fun _ => .ret _
  | none => exact .ret _

theorem made_gatePlan (plan : IdListFetchPlan) (ttl : Int) :
    MadeOf d funds opens (gatePlan w item plan ttl) := by
  refine .bind (made_revalidate plan ttl) fun plan => ?_
  split
  · exact .bind (made_op trivial) fun _ => .bind (made_releaseOrDelay ..) fun _ =>
      .bind (made_releaseIdPlan _) fun _ => .ret _
  · split
    · exact .bind (made_op trivial) fun _ => .bind (made_recordCachedIdList plan) fun _ =>
        .bind (made_completeQueueItem _) fun _ => .bind (made_releaseIdPlan _) fun _ => .ret _
    · exact made_closeGate (some plan) ttl

theorem made_gateFetchOwnership (plan : Option IdListFetchPlan) (ttl : Int) :
    MadeOf d funds opens (gateFetchOwnership w item plan ttl) := by
  refine .bind (made_op trivial) fun reason => ?_
  cases reason with
  | some reason => exact .bind (made_fetchOwnershipFailure plan reason) fun _ => .ret _
  | none =>
      refine .bind (made_getReadableCompletedCache _) fun cached => ?_
      dsimp only
      split
      · exact .bind (made_op trivial) fun _ => .bind (made_completeQueueItem _) fun _ =>
          .bind (made_releaseIdPlan plan) fun _ => .ret _
      · cases plan with
        | some plan => exact made_gatePlan plan ttl
        | none => exact made_closeGate none ttl

/-! ### The fetch -/

theorem made_onFetchError (plan : Option IdListFetchPlan) (e : Exn)
    (hd : w.deployment = d) : MadeOf d funds opens (onFetchError w item plan e) := by
  subst hd
  cases e with
  | rateLimitedError retryAfter message statusCode =>
      exact .bind (.part (.afterRateLimit ..)) fun _ =>
        .bind (made_recordCacheFailure _ _ _ _ _ _ _ nofun) fun _ =>
        .bind (made_releaseOrDelay ..) fun _ => .bind (made_releaseIdPlan plan) fun _ => .ret _
  | transientFetchError message statusCode =>
      exact .bind (.part (.afterFailure ..)) fun _ => .bind made_utcNow fun _ =>
        .bind (made_recordCacheFailure _ _ _ _ _ _ _ nofun) fun _ =>
        .bind (made_releaseOrDelay ..) fun _ => .bind (made_releaseIdPlan plan) fun _ => .ret _
  | nonRetryableFetchError message statusCode =>
      exact .bind (.part (.afterFailure ..)) fun _ =>
        .bind (made_recordCacheFailure _ _ _ _ _ _ _ nofun) fun _ =>
        .bind (made_releaseOrDelay ..) fun _ => .bind (made_releaseIdPlan plan) fun _ => .ret _
  | huldraFetchError message statusCode =>
      exact .bind (.part (.afterFailure ..)) fun _ => .bind (made_releaseIdPlan plan) fun _ =>
        .raise _
  | _ => exact .raise _

theorem made_onFetchResult (plan : Option IdListFetchPlan) (fetched : FetchResult) :
    MadeOf d funds opens (onFetchResult w item plan fetched) := by
  have hfetched : ∀ plan papers total status,
      MadeOf d funds opens (onFetched w item plan papers total status) := fun plan _ _ _ =>
    .bind (made_recordCompletedCacheEntry ..) fun _ => .bind (.part (.afterSuccess ..)) fun _ =>
      .bind (made_completeQueueItem _) fun _ => .bind (made_releaseIdPlan plan) fun _ => .ret _
  unfold onFetchResult
  split
  · exact hfetched _ _ _ _
  · dsimp only
    split
    · exact .bind (.part (.afterFailure ..)) fun _ =>
        .bind (made_recordCacheFailure _ _ _ _ _ _ _ nofun) fun _ =>
        .bind (made_releaseOrDelay ..) fun _ => .bind (made_releaseIdPlan _) fun _ => .ret _
    · split
      · exact .raise _
      · exact hfetched _ _ _ _

theorem made_fetchAndReport (plan : Option IdListFetchPlan) (request : ArxivRequest)
    (hd : w.deployment = d) : MadeOf d funds opens (fetchAndReport w item plan request) :=
  .handle (.bind (made_op trivial) fun _ => made_op trivial)
    (fun fetched => made_onFetchResult plan fetched) fun e => made_onFetchError plan e hd

theorem made_fetchWithinDeadline (plan : Option IdListFetchPlan) (hd : w.deployment = d) :
    MadeOf d funds opens (fetchWithinDeadline w item plan) := by
  refine .bind (made_op trivial) fun budgetDeadline => ?_
  cases budgetDeadline with
  | none => exact made_fetchAndReport plan _ hd
  | some deadline =>
      refine .bind made_utcNow fun now => ?_
      split
      · exact made_fetchAndReport plan _ hd
      · refine .bind (made_op trivial) fun budgetError => ?_
        cases budgetError with
        | some error => exact made_endBudgetedItem plan error
        | none =>
            refine .bind (made_op trivial) fun deadline => .bind ?_ fun remaining =>
              made_fetchAndReport plan _ hd
            cases deadline with
            | some deadline => exact .bind made_utcNow fun _ => .ret _
            | none => exact .ret _

theorem made_chargeAndFetch (plan : Option IdListFetchPlan) (ttl : Int) (hd : w.deployment = d) :
    MadeOf d funds opens (chargeAndFetch w item plan ttl) := by
  have hcharged : MadeOf d funds opens (fetchCharged w item plan ttl) := by
    refine .bind (made_gateFetchOwnership plan ttl) fun gate => ?_
    split
    · exact .ret _
    · refine .bind (made_op trivial) fun budgetError => ?_
      cases budgetError with
      | some error => exact made_endBudgetedItem gate.1 error
      | none => exact made_fetchWithinDeadline gate.1 hd
  refine .bind (made_op trivial) fun reserveError => ?_
  cases reserveError with
  | some error => exact made_endBudgetedItem plan error
  | none =>
      refine .bind (made_op trivial) fun budgetError => ?_
      cases budgetError with
      | some error => exact made_endBudgetedItem plan error
      | none => exact hcharged

theorem made_fetchAdmitted (plan : Option IdListFetchPlan) (waitSeconds : Int)
    (hd : w.deployment = d) : MadeOf d funds opens (fetchAdmitted w item plan waitSeconds) := by
  have hgate : MadeOf d funds opens (gateAndCharge w item plan) := by
    refine .bind (made_gateFetchOwnership plan _) fun gate => ?_
    split
    · exact .ret _
    · exact made_chargeAndFetch gate.1 _ hd
  unfold fetchAdmitted
  split
  · exact .bind (made_timeSleep _) fun _ => hgate
  · exact hgate

theorem made_passLimiter (plan : Option IdListFetchPlan) (hd : w.deployment = d) :
    MadeOf d funds opens (passLimiter w item plan) := by
  refine .bind (hd ▸ .part (.beforeRequest _)) fun decision => ?_
  split
  · exact made_fetchAdmitted plan _ hd
  · have hdelay : ∀ (nextAttempt : Int) (r : WorkerPassResult), MadeOf d funds opens (do
        releaseOrDelayQueueItem item.requestId (some nextAttempt) decision.blockedReason
          decision.blockedReason .delayed
        releaseIdPlan w plan
        pure r) := fun _ _ =>
      .bind (made_releaseOrDelay ..) fun _ => .bind (made_releaseIdPlan plan) fun _ => .ret _
    unfold delayRefused
    cases decision.cooldownUntil with
    | some cooldown => exact .bind (.ret cooldown) fun _ => hdelay _ _
    | none => exact .bind made_utcNow fun _ => .bind (.ret _) fun _ => hdelay _ _

theorem made_runOnce (targets : Option (List CacheKey)) (hd : w.deployment = d) :
    MadeOf d funds opens (runOnce w targets) := by
  refine .bind (made_op trivial) fun _ => .bind ?_ fun item => ?_
  · unfold claimNextQueueItem
    split
    · exact .ret _
    · exact made_op trivial
  · cases item with
    | none => exact .ret _
    | some item =>
        refine .bind (made_getReadableCompletedCache _) fun cached => ?_
        dsimp only
        split
        · exact .bind (made_completeQueueItem _) fun _ => .ret _
        · refine .bind made_planIdListFetch fun plan => ?_
          unfold workPlanned
          split
          · exact made_passLimiter none hd
          · split
            · exact .bind (made_releaseOrDelay ..) fun _ => .ret _
            · split
              · exact .bind (made_recordCachedIdList _) fun _ =>
                  .bind (made_completeQueueItem _) fun _ => .ret _
              · exact made_passLimiter _ hd

end Worker

/-! ## The broker -/

section Broker

open Broker

theorem made_resultFromCompletedCache (request : ArxivRequest) (cacheKey : CacheKey)
    (entry : CacheEntry) (requestId : Option Uuid) :
    MadeOf d funds opens (resultFromCompletedCache d request cacheKey entry requestId) := by
  refine .bind (made_op trivial) fun _ => .bind ?_ fun _ => .ret _
  unfold evaluateReadiness
  split
  · dsimp only
    split
    · exact .ret _
    · exact .bind made_utcNow fun _ => .ret _
  · exact .ret _

theorem made_tryComposeCachedIdList (request : ArxivRequest) (cacheKey : CacheKey) :
    MadeOf d funds opens (tryComposeCachedIdList d request cacheKey) := by
  unfold tryComposeCachedIdList
  split
  · exact .ret _
  · refine .bind (made_getPapersByIds _) fun papersById => ?_
    split
    · exact .ret _
    · refine .bind (made_recordCompletedCacheEntry ..) fun _ =>
        .bind (made_getReadableCompletedCache _) fun entry => ?_
      cases entry with
      | none => exact .raise _
      | some entry => exact .bind (made_resultFromCompletedCache ..) fun _ => .ret _

theorem made_getResult (cacheKey : CacheKey) : MadeOf d funds opens (getResult cacheKey) := by
  refine .bind (made_op trivial) fun entry => ?_
  split
  · exact .ret _
  · split
    · refine .bind (made_getReadableCompletedCache _) fun readable => ?_
      split
      · exact .ret _
      · exact .bind (made_op trivial) fun _ => .ret _
    · exact .ret _

theorem made_waitRounds (request : ArxivRequest) (cacheKey : CacheKey) (requestId : Uuid)
    (timeout deadline : Timeout) (rounds : Nat) :
    MadeOf d funds opens (waitRounds d request cacheKey requestId timeout deadline rounds) := by
  have hround : MadeOf d funds opens (waitRound d request cacheKey requestId) := by
    refine .bind (made_op trivial) fun entry => ?_
    split
    · exact .ret _
    · split
      all_goals
        refine .bind (by first | exact made_getReadableCompletedCache _ | exact .ret _)
          fun readable => ?_
        cases readable with
        | some readable => exact .bind (made_resultFromCompletedCache ..) fun _ => .ret _
        | none =>
            refine .bind (made_op trivial) fun item => ?_
            split
            · exact .bind (made_getResult _) fun _ => .ret _
            · exact .ret _
  induction rounds with
  | zero => exact .raise _
  | succ rounds ih =>
      refine .bind made_utcNow fun now => ?_
      split
      · refine .bind hround fun result => ?_
        cases result with
        | some result => exact .ret _
        | none => exact .bind (made_timeSleep _) fun _ => ih
      · exact .ret _

theorem made_ensure (request : ArxivRequest) (h : funds none) :
    MadeOf d funds opens (ensure d request) := by
  refine .bind (made_getReadableCompletedCache _) fun cached => ?_
  cases cached with
  | some cached =>
      refine .bind (made_resultFromCompletedCache ..) fun result => ?_
      split
      · refine .bind (made_enqueueRefreshIfDue ..) fun queued => ?_
        split
        · exact .ret _
        · exact .bind (made_op trivial) fun _ => .ret _
      · exact .ret _
  | none =>
      refine .bind (made_tryComposeCachedIdList ..) fun composed => ?_
      cases composed with
      | some composed => exact .ret _
      | none =>
          dsimp only
          split
          · exact .ret _
          · refine .bind (made_enqueueRequestForWork _ _ _ _ h) fun queued =>
              .bind (made_op trivial) fun rate => ?_
            have hwait : MadeOf d funds opens
                (waitUntilReady d request (Keys.requestCacheKey request) queued.1.requestId) :=
              .bind made_utcNow fun _ => made_waitRounds ..
            cases rate.cooldownUntil with
            | none =>
                refine .bind (.ret none) fun coolingDown => ?_
                cases coolingDown with
                | some cooldown => exact .ret _
                | none =>
                    dsimp only
                    split
                    · exact hwait
                    · exact .ret _
            | some cooldown =>
                refine .bind made_utcNow fun now => .bind (.ret _) fun coolingDown => ?_
                cases coolingDown with
                | some cooldown => exact .ret _
                | none =>
                    dsimp only
                    split
                    · exact hwait
                    · exact .ret _

end Broker

/-! ## The harvest -/

section Harvest

open Harvest

variable {j : Harvest.Job} {c : Harvest.Cursor}

theorem made_completeOaiHarvestJob (completion : Int → OaiTables.Completion) :
    MadeOf d funds opens (completeOaiHarvestJob completion) := by
  refine .bind made_utcNow fun completed => .bind (made_op trivial) fun _ =>
    .bind (made_op trivial) fun result => ?_
  cases result with
  | some result => exact .ret _
  | none => exact .raise _

theorem made_recordAndFinish (status : OaiStatus) (category pageMessage message : String) :
    MadeOf d funds opens (j.recordAndFinish c status category pageMessage message) :=
  .bind (.bind made_utcNow fun _ => made_op trivial) fun _ => made_completeOaiHarvestJob _

theorem made_releaseAndFinish (category message : String) :
    MadeOf d funds opens (j.releaseAndFinish c category message) :=
  .bind (made_op trivial) fun _ => made_completeOaiHarvestJob _

theorem made_ownershipLost : MadeOf d funds opens j.ownershipLost := by
  refine .bind (made_op trivial) fun current => ?_
  cases current with
  | none => exact .ret _
  | some current =>
      dsimp only
      split
      · exact .ret _
      · exact .ret _

theorem made_commitPage (page : OaiPmhPage) : MadeOf d funds opens (j.commitPage c page) := by
  refine .bind (made_tryExceptException (.bind made_utcNow fun _ => made_op trivial) ?_)
    fun counts => .bind (.part (.afterSuccess ..)) fun _ => ?_
  · intro e
    exact .bind (.part (.afterFailure ..)) fun _ => .raise _
  dsimp only
  split
  · exact .bind (made_completeOaiHarvestJob _) fun _ => .ret _
  · exact .ret _

theorem made_onPageError (e : Exn) (hd : j.deployment = d) :
    MadeOf d funds opens (j.onFetchError c e) := by
  subst hd
  unfold Harvest.Job.onFetchError
  cases e with
  | rateLimitedError retryAfter message statusCode =>
      exact .bind (.part (.afterRateLimit ..)) fun _ =>
        .bind (made_recordAndFinish ..) fun _ => .ret _
  | transientFetchError message statusCode =>
      exact .bind (.part (.afterFailure ..)) fun _ =>
        .bind (made_recordAndFinish ..) fun _ => .ret _
  | nonRetryableFetchError message statusCode =>
      exact .bind (.part (.afterFailure ..)) fun _ =>
        .bind (made_recordAndFinish ..) fun _ => .ret _
  | _ => exact .raise _

theorem made_fenceAndFetch (hd : j.deployment = d) :
    MadeOf d funds opens (j.fenceAndFetch c) := by
  refine .bind made_utcNow fun now => ?_
  split
  · exact .bind (made_releaseAndFinish ..) fun _ => .ret _
  · refine .bind (made_op trivial) fun renewed => ?_
    split
    · exact .bind (made_op trivial) fun _ => .bind made_ownershipLost fun _ => .ret _
    · refine .bind made_utcNow fun now => ?_
      split
      · exact .bind (made_releaseAndFinish ..) fun _ => .ret _
      · exact .handle (.bind (made_op trivial) fun _ => made_op trivial)
          (fun page => made_commitPage page) fun e => made_onPageError e hd

theorem made_pageAdmitted (waitSeconds : Int) (hd : j.deployment = d) :
    MadeOf d funds opens (j.fetchAdmitted c waitSeconds) := by
  have hwaited : MadeOf d funds opens (j.countAndFetch c) := by
    refine .bind made_utcNow fun now => ?_
    cases j.budgetError c now with
    | some error => exact .bind (made_releaseAndFinish ..) fun _ => .ret _
    | none =>
        exact .bind (.bind made_utcNow fun _ => made_op trivial) fun _ => made_fenceAndFetch hd
  refine .bind made_utcNow fun now => ?_
  split
  · exact .bind (made_releaseAndFinish ..) fun _ => .ret _
  · split
    · exact .bind (made_timeSleep _) fun _ => hwaited
    · exact hwaited

theorem made_harvestPage (hd : j.deployment = d) : MadeOf d funds opens (j.harvestPage c) := by
  refine .bind (made_op trivial) fun renewed => ?_
  split
  · exact .bind made_ownershipLost fun _ => .ret _
  · refine .bind made_utcNow fun now => ?_
    cases j.budgetError c now with
    | some error => exact .bind (made_completeOaiHarvestJob _) fun _ => .ret _
    | none =>
        refine .bind (hd ▸ .part (.beforeRequest _)) fun decision => ?_
        split
        · exact made_pageAdmitted _ hd
        · exact .bind (made_recordAndFinish ..) fun _ => .ret _

theorem made_harvestPages (hd : j.deployment = d) (pagesLeft : Nat) : ∀ c : Harvest.Cursor,
    MadeOf d funds opens (j.harvestPages pagesLeft c) := by
  have hfinished : ∀ c : Harvest.Cursor, MadeOf d funds opens (j.finishCompleted c) := by
    intro c
    unfold Harvest.Job.finishCompleted
    dsimp only
    split
    · exact .bind (.bind made_utcNow fun _ => made_op trivial) fun _ =>
        made_completeOaiHarvestJob _
    · exact made_completeOaiHarvestJob _
  induction pagesLeft with
  | zero =>
      intro c
      unfold Harvest.Job.harvestPages
      split
      · exact hfinished c
      · refine .bind (made_harvestPage hd) fun round => ?_
        cases round with
        | done result => exact .ret _
        | next moved => exact .raise _
  | succ pagesLeft ih =>
      intro c
      unfold Harvest.Job.harvestPages
      split
      · exact hfinished c
      · refine .bind (made_harvestPage hd) fun round => ?_
        cases round with
        | done result => exact .ret _
        | next moved => exact ih moved

theorem made_harvestOai (request : OaiHarvestRequest) :
    MadeOf d funds opens (harvestOai d request) := by
  have hwalk : ∀ (name : LeaseName) (owner : OwnerToken) (ttl : Int) (start : Start),
      MadeOf d funds opens (harvestFrom d name owner ttl start) := by
    intro name owner ttl start
    have hpages : ∀ from_ : Option OaiDatestamp,
        MadeOf d funds opens (walk (jobOf d name owner ttl start from_) start) := by
      intro from_
      refine .bind (made_op trivial) fun hashes => ?_
      dsimp only
      split
      · exact made_completeOaiHarvestJob _
      · exact made_harvestPages (j := jobOf d name owner ttl start from_) rfl _ _
    unfold harvestFrom
    split
    · exact .bind (.ret none) fun _ => hpages _
    · refine .bind ?_ fun _ => hpages _
      unfold oaiStartDatestamp
      split
      · exact .ret _
      · split
        · exact .ret _
        · refine .bind (made_op trivial) fun watermark => ?_
          cases watermark with
          | none => exact .ret _
          | some row => exact .ret _
  have hnew : MadeOf d funds opens (startNew request) := by
    unfold startNew
    split
    all_goals
      refine .bind (by first | exact .ret _ | exact made_op trivial) fun token =>
        .bind (.bind made_utcNow fun _ => made_op trivial) fun harvestId =>
        .bind (made_op trivial) fun created => ?_
      cases created.bind (·.deadlineAt) with
      | none => exact .raise _
      | some deadlineAt => exact .ret _
  have hrunning : ∀ running : OaiJobRow, MadeOf d funds opens (startRunning running) := by
    intro running
    unfold startRunning
    cases running.deadlineAt with
    | some deadlineAt => exact .bind (.ret deadlineAt) fun _ => .ret _
    | none =>
        exact .bind made_utcNow fun now => .bind (.bind made_utcNow fun _ => made_op trivial)
          fun _ => .ret _
  have howned : ∀ (name : LeaseName) (owner : OwnerToken) (ttl : Int),
      MadeOf d funds opens (harvestOaiOwned d request name owner ttl) := by
    intro name owner ttl
    refine .bind (made_op trivial) fun running => ?_
    cases running with
    | none => exact .bind hnew fun start => hwalk name owner ttl start
    | some running => exact .bind (hrunning running) fun start => hwalk name owner ttl start
  refine .bind made_uuid4 fun uuid => .bind (made_op trivial) fun acquired => ?_
  split
  · refine .bind (made_op trivial) fun running => ?_
    cases running with
    | none => exact .ret _
    | some running =>
        refine .bind (made_op trivial) fun active => ?_
        cases active with
        | none => exact .ret _
        | some active => exact .ret _
  · exact .tryFinally (howned ..) (made_op trivial)

end Harvest

/-! ## The clients -/

/-- Every client is put together from these parts. -/
theorem made_program (c : Client) (pid : Nat) :
    MadeOf d (fun _ => True) True (c.program d pid) := by
  cases c with
  | runOnce targets => exact .bind (made_runOnce targets rfl) fun _ => .ret _
  | harvestOai request => exact .bind (made_harvestOai request) fun _ => .ret _
  | enqueueRequestForWork request cacheKey workKind budgetId =>
      exact .bind (made_enqueueRequestForWork _ _ _ _ trivial) fun _ => .ret _
  | enqueueRefreshIfDue request cacheKey =>
      exact .bind (made_enqueueRefreshIfDue ..) fun _ => .ret _
  | createUpstreamRequestBudget maxRequests deadlineAt =>
      exact .bind (made_createUpstreamRequestBudget _ _ trivial) fun _ => .ret _
  | failActiveUpstreamBudgetItems budgetId category message =>
      exact .bind (made_failActiveUpstreamBudgetItems ..) fun _ => .ret _

end Parts

end Huldra
