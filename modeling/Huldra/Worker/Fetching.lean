import Huldra.Process.Leads
import Huldra.Worker.Routine

/-!
# Fetching — a pass prepares at most one fetch

Whatever a pass does before `fetchWithinDeadline`, it begins no fetch, adds nothing to the number
of upstream requests of an entry and reads no budget deadline; and where it ends without a fetch,
its status is none of those that stand for one.
-/

namespace Huldra
namespace Worker

open Process (Prog Leads)

/-- Operations that claim no item, read no deadline, begin no fetch and count none. -/
def Quiet : Op → Prop
  | .queue (.claimNextQueueItem ..) | .queue (.queueItemUpstreamDeadline _)
  | .upstream (.fetchBegin _) => False
  | .library (.recordCompletedCacheEntry write) => write.upstreamRequestCount = 0
  | .library (.recordCacheFailure write) => write.upstreamRequestCount = 0
  | _ => True

/-- A program of quiet operations. -/
abbrev Quietly {β : Type} (p : Program β) : Prop :=
  p.AllOps Quiet

theorem quiet_of_beside {o : Op} (h : Beside o) : Quiet o := by
  unfold Beside at h
  split at h <;> first | exact trivial | exact h.elim

theorem quietly_limiting {β : Type} {p : Program β} (hp : p.AllOps Limiting) : Quietly p :=
  hp.mono fun _ ho => quiet_of_beside ho.beside

/-! ## The methods of the store -/

theorem quietly_utcNow : Quietly utcNow :=
  .call trivial

theorem quietly_timeSleep (duration : Int) : Quietly (timeSleep duration) :=
  .bind (.call trivial) fun _ => .call trivial

theorem quietly_releaseLease (name : LeaseName) (owner : OwnerToken) :
    Quietly (releaseLease name owner) :=
  .call trivial

theorem quietly_completeQueueItem (requestId : Uuid) : Quietly (completeQueueItem requestId) :=
  .bind quietly_utcNow fun _ => .call trivial

theorem quietly_releaseOrDelay (requestId : Uuid) (nextAttemptAt : Option Int)
    (category message : Option String) (status : RequestStatus) :
    Quietly (releaseOrDelayQueueItem requestId nextAttemptAt category message status) :=
  .bind quietly_utcNow fun _ => .call trivial

theorem quietly_renewReservations (ids : List String) (owner : OwnerToken) (ttl : Int) :
    Quietly (renewIdFetchReservations ids owner ttl) := by
  unfold renewIdFetchReservations
  split
  · exact .ret _
  · exact .call trivial

theorem quietly_releaseReservations (ids : List String) (owner : OwnerToken) :
    Quietly (releaseIdFetchReservations ids owner) := by
  unfold releaseIdFetchReservations
  split
  · exact .ret _
  · exact .bind quietly_utcNow fun _ => .call trivial

theorem quietly_getReadableCompletedCache (cacheKey : CacheKey) :
    Quietly (getReadableCompletedCache cacheKey) := by
  refine .bind (.call trivial) fun entry => ?_
  cases entry with
  | none => exact .ret none
  | some entry =>
      simp only
      split
      · exact .ret none
      · refine .bind ?_ fun reason => ?_
        · refine .bind (.call trivial) fun _ => .bind (.call trivial) fun _ =>
            .bind (.call trivial) fun _ => ?_
          split
          · exact .ret _
          · split
            · exact .ret _
            · split
              · exact .ret _
              · exact .ret _
        · cases reason with
          | none => exact .ret _
          | some reason => exact .bind (.call trivial) fun _ => .ret none

theorem quietly_getPapersByIds (ids : List String) : Quietly (getPapersByIds ids) := by
  unfold getPapersByIds
  split
  · exact .ret _
  · exact .call trivial

/-- A result that took no request is recorded as such. -/
theorem quietly_recordComposed (cacheKey : CacheKey) (request : ArxivRequest)
    (papers : List ArxivPaper) (total : Option Nat) (status : Int) :
    Quietly (recordCompletedCacheEntry cacheKey request papers total status 0) :=
  .bind quietly_utcNow fun _ => .bind quietly_utcNow fun _ => .call rfl

theorem quietly_recordUnfetched (cacheKey : CacheKey) (request : ArxivRequest)
    (category message : String) (status : CacheStatus) (cooldownUntil upstreamStatus : Option Int) :
    Quietly (recordCacheFailure cacheKey request category message status cooldownUntil
      upstreamStatus 0) :=
  .bind quietly_utcNow fun _ => .call rfl

/-! ## The steps of a pass -/

section Steps

variable {w : WorkerConfig} {item : QueueItem}

theorem quietly_releaseIdPlan (plan : Option IdListFetchPlan) : Quietly (releaseIdPlan w plan) := by
  cases plan with
  | none => exact .ret _
  | some plan => exact quietly_releaseReservations _ _

theorem quietly_planIdListFetch : Quietly (planIdListFetch w item) := by
  unfold planIdListFetch
  split
  · exact .ret _
  · refine .bind (quietly_getPapersByIds _) fun papersById => ?_
    dsimp only
    split
    · exact .ret _
    · refine .bind (.call trivial) fun reservations => ?_
      split
      · exact .ret _
      · exact .ret _

theorem quietly_revalidate (plan : IdListFetchPlan) (ttl : Int) :
    Quietly (revalidateIdListFetchPlan w item plan ttl) := by
  unfold revalidateIdListFetchPlan
  split
  · exact .ret _
  · refine .bind (quietly_getPapersByIds _) fun papersById =>
      .bind (quietly_releaseReservations _ _) fun _ => ?_
    dsimp only
    split
    · exact .ret _
    · split
      all_goals
        refine .bind (by first | exact quietly_renewReservations .. | exact .ret _)
          fun renewed => ?_
        split
        · exact .bind quietly_utcNow fun _ => .ret _
        · exact .ret _

theorem quietly_recordCachedIdList (plan : IdListFetchPlan) :
    Quietly (recordCachedIdList item plan) := by
  unfold recordCachedIdList
  split
  · exact .raise _
  · exact .bind (quietly_recordComposed ..) fun _ => .ret _

theorem quietly_endBudgetedItem (plan : Option IdListFetchPlan) (budgetError : String) :
    Quietly (endBudgetedItem w item plan budgetError) := by
  unfold endBudgetedItem
  split
  · exact .bind (quietly_releaseLease ..) fun _ => .bind quietly_utcNow fun _ =>
      .bind (quietly_releaseOrDelay ..) fun _ => .bind (quietly_releaseIdPlan plan) fun _ => .ret _
  · exact .bind (quietly_releaseLease ..) fun _ => .bind (quietly_recordUnfetched ..) fun _ =>
      .bind (quietly_releaseOrDelay ..) fun _ => .bind (quietly_releaseIdPlan plan) fun _ => .ret _

theorem quietly_fetchOwnershipFailure (plan : Option IdListFetchPlan) (reason : String) :
    Quietly (fetchOwnershipFailure w item plan reason) := by
  refine .bind (quietly_releaseLease ..) fun _ => ?_
  split
  · exact .bind quietly_utcNow fun _ => .bind (quietly_releaseOrDelay ..) fun _ =>
      .bind (quietly_releaseIdPlan plan) fun _ => .ret _
  · exact .bind (quietly_releaseIdPlan plan) fun _ => .ret _

theorem quietly_closeGate (plan : Option IdListFetchPlan) (ttl : Int) :
    Quietly (closeGate w item plan ttl) := by
  refine .bind (.call trivial) fun reason => ?_
  cases reason with
  | some reason => exact .bind (quietly_fetchOwnershipFailure plan reason) fun _ => .ret _
  | none => exact .ret _

theorem quietly_gatePlan (plan : IdListFetchPlan) (ttl : Int) :
    Quietly (gatePlan w item plan ttl) := by
  refine .bind (quietly_revalidate plan ttl) fun plan => ?_
  split
  · exact .bind (quietly_releaseLease ..) fun _ => .bind (quietly_releaseOrDelay ..) fun _ =>
      .bind (quietly_releaseIdPlan _) fun _ => .ret _
  · split
    · exact .bind (quietly_releaseLease ..) fun _ =>
        .bind (quietly_recordCachedIdList plan) fun _ =>
        .bind (quietly_completeQueueItem _) fun _ => .bind (quietly_releaseIdPlan _) fun _ => .ret _
    · exact quietly_closeGate (some plan) ttl

theorem quietly_gateFetchOwnership (plan : Option IdListFetchPlan) (ttl : Int) :
    Quietly (gateFetchOwnership w item plan ttl) := by
  refine .bind (.call trivial) fun reason => ?_
  cases reason with
  | some reason => exact .bind (quietly_fetchOwnershipFailure plan reason) fun _ => .ret _
  | none =>
      refine .bind (quietly_getReadableCompletedCache _) fun cached => ?_
      dsimp only
      split
      · exact .bind (quietly_releaseLease ..) fun _ => .bind (quietly_completeQueueItem _) fun _ =>
          .bind (quietly_releaseIdPlan plan) fun _ => .ret _
      · cases plan with
        | some plan => exact quietly_gatePlan plan ttl
        | none => exact quietly_closeGate none ttl

theorem quietly_delayRefused (plan : Option IdListFetchPlan) (decision : RateLimitDecision) :
    Quietly (delayRefused w item plan decision) := by
  have hrest : ∀ (nextAttempt : Int) (r : WorkerPassResult), Quietly (do
      releaseOrDelayQueueItem item.requestId (some nextAttempt) decision.blockedReason
        decision.blockedReason .delayed
      releaseIdPlan w plan
      pure r) := fun _ _ =>
    .bind (quietly_releaseOrDelay ..) fun _ => .bind (quietly_releaseIdPlan plan) fun _ => .ret _
  unfold delayRefused
  cases decision.cooldownUntil with
  | some cooldown => exact .bind (.ret cooldown) fun _ => hrest _ _
  | none => exact .bind quietly_utcNow fun _ => .bind (.ret _) fun _ => hrest _ _

/-! ## What the steps return -/

/-- The pass has ended without a fetch. -/
def Unfetched (result : WorkerPassResult) : Prop :=
  result.status ∉
    [WorkerPassStatus.completed, .rateLimited, .transientFailure, .failed]

/-- What a plan fetches is the item's own request, for some of its ids. -/
def PlanOf (item : QueueItem) (plan : Option IdListFetchPlan) : Prop :=
  ∀ request, plan.bind (·.fetchRequest) = some request → ∃ ids, request = missingRequest item ids

theorem planOf_none : PlanOf item none :=
  fun _ h => nomatch h

theorem planOf_of_fetchRequest {plan : IdListFetchPlan} (h : plan.fetchRequest = none) :
    PlanOf item (some plan) := by
  intro request hrequest
  rw [Option.bind_some, h] at hrequest
  cases hrequest

theorem planOf_missing {plan : IdListFetchPlan} {ids : List String}
    (h : plan.fetchRequest = some (missingRequest item ids)) : PlanOf item (some plan) := by
  intro request hrequest
  rw [Option.bind_some, h] at hrequest
  cases hrequest
  exact ⟨ids, rfl⟩

/-- The timeout is not the plan's to choose. -/
theorem timeout_fetchRequestOf {plan : Option IdListFetchPlan} (h : PlanOf item plan) :
    (fetchRequestOf item plan).timeoutSeconds = item.request.timeoutSeconds := by
  unfold fetchRequestOf
  cases hplan : plan.bind (·.fetchRequest) with
  | none => rfl
  | some request =>
      rcases h request hplan with ⟨ids, rfl⟩
      rfl

theorem returns_planIdListFetch : (planIdListFetch w item).Returns (PlanOf item) := by
  unfold planIdListFetch
  split
  · exact planOf_none
  · refine .bind fun papersById => ?_
    dsimp only
    split
    · exact planOf_of_fetchRequest rfl
    · refine .bind fun reservations => ?_
      split
      · exact planOf_of_fetchRequest rfl
      · exact planOf_missing rfl

theorem returns_revalidate {plan : IdListFetchPlan} (h : PlanOf item (some plan)) (ttl : Int) :
    (revalidateIdListFetchPlan w item plan ttl).Returns fun plan => PlanOf item (some plan) := by
  unfold revalidateIdListFetchPlan
  split
  · exact h
  · refine .bind fun papersById => .bind fun _ => ?_
    dsimp only
    split
    · exact planOf_of_fetchRequest rfl
    · split
      all_goals
        refine .bind fun renewed => ?_
        split
        · exact .bind fun _ => planOf_of_fetchRequest rfl
        · exact planOf_missing rfl

/-- The gate lets the pass through with a plan for its item, or ends it without a fetch. -/
def GateOf (item : QueueItem) (gate : Option IdListFetchPlan × Option WorkerPassResult) : Prop :=
  PlanOf item gate.1 ∧ ∀ result ∈ gate.2, Unfetched result

theorem gateOf_ended {plan : Option IdListFetchPlan} {result : WorkerPassResult}
    (hplan : PlanOf item plan) (h : Unfetched result) : GateOf item (plan, some result) := by
  refine ⟨hplan, fun result' hresult' => ?_⟩
  cases hresult'
  exact h

theorem returns_fetchOwnershipFailure (plan : Option IdListFetchPlan) (reason : String) :
    (fetchOwnershipFailure w item plan reason).Returns Unfetched := by
  refine .bind fun _ => ?_
  split
  · exact .bind fun _ => .bind fun _ => .bind fun _ => by simp [Prog.Returns, Unfetched, result]
  · refine .bind fun _ => ?_
    change Unfetched _
    by_cases hreason : reason = "lost_lease" <;> simp [Unfetched, hreason, result]

theorem returns_closeGate {plan : Option IdListFetchPlan} (hplan : PlanOf item plan) (ttl : Int) :
    (closeGate w item plan ttl).Returns (GateOf item) := by
  refine .bind fun reason => ?_
  cases reason with
  | some reason =>
      exact .bind_of (returns_fetchOwnershipFailure plan reason) fun _ h => gateOf_ended hplan h
  | none => exact ⟨hplan, fun _ h => nomatch h⟩

theorem returns_gatePlan {plan : IdListFetchPlan} (hplan : PlanOf item (some plan)) (ttl : Int) :
    (gatePlan w item plan ttl).Returns (GateOf item) := by
  refine .bind_of (returns_revalidate hplan ttl) fun plan hplan => ?_
  split
  · exact .bind fun _ => .bind fun _ => .bind fun _ =>
      gateOf_ended hplan (by simp [Unfetched, result])
  · split
    · exact .bind fun _ => .bind fun _ => .bind fun _ => .bind fun _ =>
        gateOf_ended hplan (by simp [Unfetched, result])
    · exact returns_closeGate hplan ttl

theorem returns_gateFetchOwnership {plan : Option IdListFetchPlan} (hplan : PlanOf item plan)
    (ttl : Int) : (gateFetchOwnership w item plan ttl).Returns (GateOf item) := by
  refine .bind fun reason => ?_
  cases reason with
  | some reason =>
      exact .bind_of (returns_fetchOwnershipFailure plan reason) fun _ h => gateOf_ended hplan h
  | none =>
      refine .bind fun cached => ?_
      dsimp only
      split
      · exact .bind fun _ => .bind fun _ => .bind fun _ =>
          gateOf_ended hplan (by simp [Unfetched, result])
      · cases plan with
        | some plan => exact returns_gatePlan hplan ttl
        | none => exact returns_closeGate hplan ttl

theorem returns_endBudgetedItem (plan : Option IdListFetchPlan) (budgetError : String) :
    (endBudgetedItem w item plan budgetError).Returns Unfetched := by
  unfold endBudgetedItem
  split
  · exact .bind fun _ => .bind fun _ => .bind fun _ => .bind fun _ => by
      simp [Prog.Returns, Unfetched, result]
  · exact .bind fun _ => .bind fun _ => .bind fun _ => .bind fun _ => by
      simp [Prog.Returns, Unfetched, result]

theorem returns_delayRefused (plan : Option IdListFetchPlan) (decision : RateLimitDecision) :
    (delayRefused w item plan decision).Returns Unfetched := by
  have hstatus : ∀ r : WorkerPassResult, r.status =
      (if decision.blockedReason = some "cooldown" then .coolingDown else .blocked) →
      Unfetched r := by
    intro r hr
    rw [Unfetched, hr]
    split <;> simp
  unfold delayRefused
  cases decision.cooldownUntil with
  | some cooldown => exact .bind fun _ => .bind fun _ => .bind fun _ => hstatus _ rfl
  | none => exact .bind fun _ => .bind fun _ => .bind fun _ => .bind fun _ => hstatus _ rfl

/-! ## From the claim to the fetch -/

/-- The last part of a pass that fetches. -/
def Fetching (w : WorkerConfig) (item : QueueItem) (p : Program WorkerPassResult) : Prop :=
  ∃ plan, PlanOf item plan ∧ p = fetchWithinDeadline w item plan

/-- Quiet operations, and then an end without a fetch or the last part. -/
abbrev Prepares (w : WorkerConfig) (item : QueueItem) (p : Program WorkerPassResult) : Prop :=
  Leads Quiet Unfetched (Fetching w item) p

theorem prepares_endBudgetedItem (plan : Option IdListFetchPlan) (budgetError : String) :
    Prepares w item (endBudgetedItem w item plan budgetError) :=
  .ends (quietly_endBudgetedItem plan budgetError) (returns_endBudgetedItem plan budgetError)

theorem prepares_fetchCharged {plan : Option IdListFetchPlan} (hplan : PlanOf item plan)
    (ttl : Int) : Prepares w item (fetchCharged w item plan ttl) := by
  refine .bindOf (quietly_gateFetchOwnership plan ttl) (returns_gateFetchOwnership hplan ttl)
    fun gate hgate => ?_
  rcases gate with ⟨plan, ended⟩
  cases ended with
  | some result => exact .ends (.ret _) (hgate.2 result rfl)
  | none =>
      refine .bind (.call trivial) fun budgetError => ?_
      cases budgetError with
      | some error => exact prepares_endBudgetedItem plan error
      | none => exact .last ⟨plan, hgate.1, rfl⟩

theorem prepares_chargeAndFetch {plan : Option IdListFetchPlan} (hplan : PlanOf item plan)
    (ttl : Int) : Prepares w item (chargeAndFetch w item plan ttl) := by
  refine .bind (.call trivial) fun reserveError => ?_
  cases reserveError with
  | some error => exact prepares_endBudgetedItem plan error
  | none =>
      refine .bind (.call trivial) fun budgetError => ?_
      cases budgetError with
      | some error => exact prepares_endBudgetedItem plan error
      | none => exact prepares_fetchCharged hplan ttl

theorem prepares_fetchAdmitted {plan : Option IdListFetchPlan} (hplan : PlanOf item plan)
    (waitSeconds : Int) : Prepares w item (fetchAdmitted w item plan waitSeconds) := by
  have hgate : Prepares w item (gateAndCharge w item plan) := by
    refine .bindOf (quietly_gateFetchOwnership plan _) (returns_gateFetchOwnership hplan _)
      fun gate hgate => ?_
    rcases gate with ⟨plan, ended⟩
    cases ended with
    | some result => exact .ends (.ret _) (hgate.2 result rfl)
    | none => exact prepares_chargeAndFetch hgate.1 _
  unfold fetchAdmitted
  split
  · exact .bind (quietly_timeSleep _) fun _ => hgate
  · exact hgate

theorem prepares_passLimiter {plan : Option IdListFetchPlan} (hplan : PlanOf item plan) :
    Prepares w item (passLimiter w item plan) := by
  refine .bind (quietly_limiting (limiting_beforeRequest _ _)) fun decision => ?_
  split
  · exact prepares_fetchAdmitted hplan _
  · exact .ends (quietly_delayRefused plan decision) (returns_delayRefused plan decision)

theorem prepares_workPlanned {plan : Option IdListFetchPlan} (hplan : PlanOf item plan) :
    Prepares w item (workPlanned w item plan) := by
  unfold workPlanned
  split
  · exact prepares_passLimiter hplan
  · split
    · exact .ends (.bind (quietly_releaseOrDelay ..) fun _ => .ret _)
        (.bind fun _ => by simp [Prog.Returns, Unfetched, result])
    · split
      · exact .ends (.bind (quietly_recordCachedIdList _) fun _ =>
          .bind (quietly_completeQueueItem _) fun _ => .ret _)
          (.bind fun _ => .bind fun _ => by simp [Prog.Returns, Unfetched, result])
      · exact prepares_passLimiter hplan

/-- What a pass does with its item prepares one fetch, or ends without. -/
theorem prepares_workClaimed : Prepares w item (workClaimed w item) := by
  refine .bind (quietly_getReadableCompletedCache _) fun cached => ?_
  split
  · exact .ends (.bind (quietly_completeQueueItem _) fun _ => .ret _)
      (.bind fun _ => by simp [Prog.Returns, Unfetched, result])
  · exact .bindOf quietly_planIdListFetch returns_planIdListFetch fun _ hplan =>
      prepares_workPlanned hplan

end Steps

end Worker
end Huldra
