import Huldra.Queue.Isolation
import Huldra.Queue.Runs
import Huldra.Worker.Fetching

/-!
# Promotions — a refresh that joins an item is served before the item is completed

A pass decides from the kind of work it read with its claim whether a cache hit completes the item,
and a refresh that joins later promotes the row behind its back.  `Serving` remembers what a pass
has read and fetched.  An item that is completed as it was read, or right after its fetch, owes
nobody a refresh.
-/

namespace Huldra
namespace Queue

open QueueTables
open Process (Prog Discipline Leads)
open Process.System (Monitor Config Throughout Disciplined History Event Legal stateAfter)

/-! ## What a pass has read and fetched -/

structure Serving where
  /-- The kind of work, as the claim has read it. -/
  kind : Option QueueWorkKind := none
  /-- The item of the last request to the server. -/
  call : Option Uuid := none
  /-- The item whose fetch has succeeded. -/
  fetched : Option Uuid := none
  deriving DecidableEq

namespace Serving

def step (x : Serving) (o : Op) (r : Except Exn o.Res) : Serving :=
  match o, r with
  | .queue (.claimNextQueueItem ..), .ok (some item) => { kind := some item.workKind }
  | .upstream (.fetchBegin call), _ => { x with call := some call.requestId, fetched := none }
  | .upstream .fetchEnd, .ok _ => { x with fetched := x.call }
  | _, _ => x

/-- Work that was to be refreshed is completed after a fetch only. -/
def Allowed (x : Serving) : Op → Prop
  | .queue (.completeQueueItem ..) => x.kind = some .fetchMissing ∨ x.fetched.isSome = true
  | _ => True

end Serving

def servingMonitor {Client Out : Type} {program : Client → Nat → Process.Prog huldra Out} :
    Monitor (storeSystem Client Out program) Serving where
  initial _ := {}
  start _ _ _ := {}
  step x o r _ := x.step o r
  crash _ := {}
  clock _ := 0
  clock_initial _ := Process.System.no_time
  clock_start _ _ _ h := h
  clock_step _ _ _ _ h := h
  clock_crash _ := Int.le_refl 0

/-- The discipline of completions. -/
def serves : Discipline huldra Serving where
  allow := Serving.Allowed
  next x o r x' := ∃ t s s', (0 : Int) ≤ t ∧ Store.Performed o t r s s' ∧ x' = x.step o r

/-! ## Operations that complete nothing -/

/-- No item is claimed, fetched or completed. -/
def Unserved : Op → Prop
  | .queue (.claimNextQueueItem ..) | .queue (.completeQueueItem ..)
  | .upstream (.fetchBegin _) | .upstream .fetchEnd => False
  | _ => True

/-- No item is claimed or fetched. -/
def Settled : Op → Prop
  | .queue (.claimNextQueueItem ..) | .upstream (.fetchBegin _) | .upstream .fetchEnd => False
  | _ => True

theorem Unserved.settled {o : Op} (ho : Unserved o) : Settled o := by
  unfold Settled
  split <;> first | exact ho | trivial

theorem Settled.step {o : Op} (ho : Settled o) (x : Serving) (r : Except Exn o.Res) :
    x.step o r = x := by
  unfold Serving.step
  split <;> first | rfl | exact ho.elim

theorem Unserved.allowed {o : Op} (ho : Unserved o) (x : Serving) : x.Allowed o := by
  unfold Serving.Allowed
  split <;> first | exact trivial | exact ho.elim

theorem unserved_of_beside {o : Op} (ho : Worker.Beside o) : Unserved o := by
  unfold Worker.Beside at ho
  split at ho <;> first | exact trivial | exact ho.elim

theorem settled_of_reporting {owner : OwnerToken} {requestId : Uuid} {o : Op}
    (ho : Worker.Reporting owner requestId o) : Settled o := by
  rcases ho with (hplain | rfl | ⟨ttl, ids, rfl⟩) | hlimiting
  · unfold Worker.Plain at hplain
    split at hplain <;> first | exact trivial | exact hplain.elim
  · trivial
  · trivial
  · exact (unserved_of_beside hlimiting.beside).settled

section Wp

variable {β : Type} {p : Program β} {x : Serving}

/-- A program that completes nothing leaves the view as it is. -/
theorem wp_unserved (hp : p.AllOps Unserved) (x : Serving) :
    p.wp serves (fun x' _ => x' = x) (fun x' _ => x' = x) x := by
  refine hp.wp ?_ x rfl
  rintro o ho x' rfl
  refine ⟨ho.allowed x', ?_⟩
  rintro r x'' ⟨t, s, s', _, _, rfl⟩
  exact ho.settled.step x' r

/-- Where a completion is allowed, it remains so. -/
theorem wp_settled (hp : p.AllOps Settled)
    (hx : x.kind = some .fetchMissing ∨ x.fetched.isSome = true) :
    p.wp serves (fun _ _ => True) (fun _ _ => True) x := by
  have hkept := hp.wp (D := serves) (J := fun x' => x' = x) ?_ x rfl
  · exact Prog.wp_mono (fun _ _ _ => trivial) (fun _ _ _ => trivial) _ _ hkept
  · rintro o ho x' rfl
    refine ⟨?_, ?_⟩
    · change x'.Allowed o
      unfold Serving.Allowed
      split
      · exact hx
      · trivial
    · rintro r x'' ⟨t, s, s', _, _, rfl⟩
      exact ho.step x' r

end Wp

/-! ## The pass -/

section Pass

variable {w : WorkerConfig} {item : QueueItem} {β : Type}

theorem unserved_limiting {p : Program β} (hp : p.AllOps Worker.Limiting) : p.AllOps Unserved :=
  hp.mono fun _ ho => unserved_of_beside ho.beside

theorem unserved_utcNow : utcNow.AllOps Unserved :=
  .call trivial

theorem unserved_releaseOrDelay (nextAttemptAt : Option Int) (category message : Option String)
    (status : RequestStatus) :
    (releaseOrDelayQueueItem item.requestId nextAttemptAt category message status).AllOps
      Unserved :=
  .bind unserved_utcNow fun _ => .call trivial

theorem unserved_releaseIdPlan (plan : Option IdListFetchPlan) :
    (Worker.releaseIdPlan w plan).AllOps Unserved := by
  cases plan with
  | none => exact .ret ()
  | some plan =>
      change (releaseIdFetchReservations plan.reservedIds w.ownerToken).AllOps Unserved
      unfold releaseIdFetchReservations
      split
      · exact .ret ()
      · exact .bind unserved_utcNow fun _ => .call trivial

theorem unserved_recordCacheFailure (category message : String) (status : CacheStatus)
    (cooldownUntil upstreamStatus : Option Int) (count : Nat) :
    (recordCacheFailure item.cacheKey item.request category message status cooldownUntil
      upstreamStatus count).AllOps Unserved :=
  .bind unserved_utcNow fun _ => .call trivial

theorem unserved_getReadableCompletedCache :
    (getReadableCompletedCache item.cacheKey).AllOps Unserved := by
  refine .bind (.call trivial) fun entry => ?_
  cases entry with
  | none => exact .ret none
  | some entry =>
      simp only
      split
      · exact .ret none
      · refine .bind ?_ fun reason => ?_
        · refine .bind (.call trivial) fun _ => .bind (.call trivial) fun _ =>
            .bind (.call trivial) fun _ => ?_
          split
          · exact .ret _
          · split
            · exact .ret _
            · split
              · exact .ret _
              · exact .ret _
        · cases reason with
          | none => exact .ret _
          | some reason => exact .bind (.call trivial) fun _ => .ret none

theorem unserved_endBudgetedItem (plan : Option IdListFetchPlan) (budgetError : String) :
    (Worker.endBudgetedItem w item plan budgetError).AllOps Unserved := by
  unfold Worker.endBudgetedItem
  split
  · exact .bind (.call trivial) fun _ => .bind unserved_utcNow fun _ =>
      .bind (unserved_releaseOrDelay ..) fun _ =>
        .bind (unserved_releaseIdPlan plan) fun _ => .ret _
  · exact .bind (.call trivial) fun _ => .bind (unserved_recordCacheFailure ..) fun _ =>
      .bind (unserved_releaseOrDelay ..) fun _ =>
        .bind (unserved_releaseIdPlan plan) fun _ => .ret _

theorem unserved_fetchOwnershipFailure (plan : Option IdListFetchPlan) (reason : String) :
    (Worker.fetchOwnershipFailure w item plan reason).AllOps Unserved := by
  refine .bind (.call trivial) fun _ => ?_
  split
  · exact .bind unserved_utcNow fun _ => .bind (unserved_releaseOrDelay ..) fun _ =>
      .bind (unserved_releaseIdPlan plan) fun _ => .ret _
  · exact .bind (unserved_releaseIdPlan plan) fun _ => .ret _

theorem unserved_closeGate (plan : Option IdListFetchPlan) (ttl : Int) :
    (Worker.closeGate w item plan ttl).AllOps Unserved := by
  refine .bind (.call trivial) fun reason => ?_
  cases reason with
  | some reason => exact .bind (unserved_fetchOwnershipFailure plan reason) fun _ => .ret _
  | none => exact .ret _

theorem unserved_delayRefused (decision : RateLimitDecision) :
    (Worker.delayRefused w item none decision).AllOps Unserved := by
  unfold Worker.delayRefused
  cases decision.cooldownUntil with
  | some cooldown =>
      exact .bind (.ret cooldown) fun _ => .bind (unserved_releaseOrDelay ..) fun _ =>
        .bind (unserved_releaseIdPlan none) fun _ => .ret _
  | none =>
      exact .bind unserved_utcNow fun _ => .bind (.ret _) fun _ =>
        .bind (unserved_releaseOrDelay ..) fun _ => .bind (unserved_releaseIdPlan none) fun _ =>
        .ret _

/-- A failed fetch completes nothing. -/
theorem unserved_onFetchError (plan : Option IdListFetchPlan) (e : Exn) :
    (Worker.onFetchError w item plan e).AllOps Unserved := by
  have hputOff : ∀ (r : WorkerPassResult) (category message : String) (status : CacheStatus)
      (nextAttemptAt cooldownUntil upstreamStatus : Option Int) (final : RequestStatus),
      Prog.AllOps Unserved (do
        recordCacheFailure item.cacheKey item.request category message status cooldownUntil
          upstreamStatus 1
        releaseOrDelayQueueItem item.requestId nextAttemptAt (some category) (some message) final
        Worker.releaseIdPlan w plan
        pure r : Program WorkerPassResult) := fun _ _ _ _ _ _ _ _ =>
    .bind (unserved_recordCacheFailure ..) fun _ => .bind (unserved_releaseOrDelay ..) fun _ =>
      .bind (unserved_releaseIdPlan plan) fun _ => .ret _
  cases e with
  | rateLimitedError retryAfter message statusCode =>
      exact .bind (unserved_limiting (Worker.limiting_afterRateLimit ..)) fun _ => hputOff ..
  | transientFetchError message statusCode =>
      exact .bind (unserved_limiting (Worker.limiting_afterFailure ..)) fun _ =>
        .bind unserved_utcNow fun _ => hputOff ..
  | nonRetryableFetchError message statusCode =>
      exact .bind (unserved_limiting (Worker.limiting_afterFailure ..)) fun _ => hputOff ..
  | huldraFetchError message statusCode =>
      exact .bind (unserved_limiting (Worker.limiting_afterFailure ..)) fun _ =>
        .bind (unserved_releaseIdPlan plan) fun _ => .raise _
  | _ => exact .raise _

/-! ### Work that is to be refreshed -/

/-- It is not the work a cache hit would do. -/
theorem filter_of_refresh (hkind : item.workKind ≠ .fetchMissing) (cached : Option CacheEntry) :
    cached.filter (fun _ => item.workKind = .fetchMissing) = none := by
  cases cached with
  | none => rfl
  | some entry => simp [hkind]

theorem planIdListFetch_of_refresh (hkind : item.workKind ≠ .fetchMissing) :
    Worker.planIdListFetch w item = pure none := by
  unfold Worker.planIdListFetch
  rw [if_pos (Or.inl hkind)]

/-- The gate of a refresh looks at the cache and lets it through or ends it. -/
theorem unserved_gate (hkind : item.workKind ≠ .fetchMissing) (ttl : Int) :
    (Worker.gateFetchOwnership w item none ttl).AllOps Unserved := by
  refine .bind (.call trivial) fun reason => ?_
  cases reason with
  | some reason => exact .bind (unserved_fetchOwnershipFailure none reason) fun _ => .ret _
  | none =>
      refine .bind unserved_getReadableCompletedCache fun cached => ?_
      simp only [filter_of_refresh hkind]
      exact unserved_closeGate none ttl

theorem returns_gate (hkind : item.workKind ≠ .fetchMissing) (ttl : Int) :
    (Worker.gateFetchOwnership w item none ttl).Returns fun gate => gate.1 = none := by
  refine .bind fun reason => ?_
  cases reason with
  | some reason => exact .bind fun _ => rfl
  | none =>
      refine .bind fun cached => ?_
      simp only [filter_of_refresh hkind]
      refine .bind fun reason => ?_
      cases reason with
      | some reason => exact .bind fun _ => rfl
      | none => rfl

/-- Nothing is completed before the last part. -/
abbrev LeadsToFetch (w : WorkerConfig) (item : QueueItem) (p : Program WorkerPassResult) : Prop :=
  Leads Unserved (fun _ => True) (fun p => p = Worker.fetchWithinDeadline w item none) p

theorem leads_fetchCharged (hkind : item.workKind ≠ .fetchMissing) (ttl : Int) :
    LeadsToFetch w item (Worker.fetchCharged w item none ttl) := by
  refine .bindOf (unserved_gate hkind ttl) (returns_gate hkind ttl) ?_
  rintro ⟨plan, ended⟩ hplan
  cases hplan
  cases ended with
  | some result => exact .ends (.ret _) trivial
  | none =>
      refine .bind (.call trivial) fun budgetError => ?_
      cases budgetError with
      | some error => exact .ends (unserved_endBudgetedItem none error) (Prog.Returns.trivial _)
      | none => exact .last rfl

theorem leads_chargeAndFetch (hkind : item.workKind ≠ .fetchMissing) (ttl : Int) :
    LeadsToFetch w item (Worker.chargeAndFetch w item none ttl) := by
  have hended : ∀ error, LeadsToFetch w item (Worker.endBudgetedItem w item none error) :=
    fun error => .ends (unserved_endBudgetedItem none error) (Prog.Returns.trivial _)
  refine .bind (.call trivial) fun reserveError => ?_
  cases reserveError with
  | some error => exact hended error
  | none =>
      refine .bind (.call trivial) fun budgetError => ?_
      cases budgetError with
      | some error => exact hended error
      | none => exact leads_fetchCharged hkind ttl

theorem leads_passLimiter (hkind : item.workKind ≠ .fetchMissing) :
    LeadsToFetch w item (Worker.passLimiter w item none) := by
  refine .bind (unserved_limiting (Worker.limiting_beforeRequest ..)) fun decision => ?_
  split
  · have hgate : LeadsToFetch w item (Worker.gateAndCharge w item none) := by
      refine .bindOf (unserved_gate hkind _) (returns_gate hkind _) ?_
      rintro ⟨plan, ended⟩ hplan
      cases hplan
      cases ended with
      | some result => exact .ends (.ret _) trivial
      | none => exact leads_chargeAndFetch hkind _
    unfold Worker.fetchAdmitted
    split
    · exact .bind (unserved_limiting (Worker.limiting_timeSleep _)) fun _ => hgate
    · exact hgate
  · exact .ends (unserved_delayRefused decision) (Prog.Returns.trivial _)

theorem leads_workClaimed (hkind : item.workKind ≠ .fetchMissing) :
    LeadsToFetch w item (Worker.workClaimed w item) := by
  refine .bind unserved_getReadableCompletedCache fun cached => ?_
  simp only [filter_of_refresh hkind, planIdListFetch_of_refresh hkind]
  exact leads_passLimiter hkind

/-! ### The fetch -/

/-- A completion follows a fetch that has succeeded, whatever the work was. -/
theorem wp_fetchAndReport_serves (plan : Option IdListFetchPlan) (request : ArxivRequest)
    (x : Serving) :
    (Worker.fetchAndReport w item plan request).wp serves (fun _ _ => True) (fun _ _ => True)
      x := by
  have herror : ∀ e x, (Worker.onFetchError w item plan e).wp serves (fun _ _ => True)
      (fun _ _ => True) x := fun e x =>
    Prog.wp_mono (fun _ _ _ => trivial) (fun _ _ _ => trivial) _ _
      (wp_unserved (unserved_onFetchError plan e) x)
  refine (Prog.wp_handle ..).2 ((Prog.wp_call_handle ..).2 ⟨trivial, ?_, ?_⟩)
  · rintro r x' ⟨t, s, s', _, _, rfl⟩
    refine (Prog.wp_call ..).2 ⟨trivial, ?_, ?_⟩
    · rintro fetched x'' ⟨t', s₁, s₁', _, _, rfl⟩
      exact wp_settled ((Worker.reporting_onFetchResult plan fetched).mono
        fun _ ho => settled_of_reporting ho) (Or.inr rfl)
    · intro e x'' _
      exact herror e x''
  · intro e x' _
    exact herror e x'

theorem wp_fetchWithinDeadline_serves (plan : Option IdListFetchPlan) (x : Serving) :
    (Worker.fetchWithinDeadline w item plan).wp serves (fun _ _ => True) (fun _ _ => True)
      x := by
  have hread : (queueItemUpstreamDeadline item.requestId).AllOps Unserved := .call trivial
  have hcheck : (checkQueueItemUpstreamRequestDeadlines item.requestId).AllOps Unserved :=
    .call trivial
  refine (Prog.wp_bind ..).2 (Prog.wp_mono ?_ (fun _ _ _ => trivial) _ _ (wp_unserved hread x))
  intro x₁ budgetDeadline _
  cases budgetDeadline with
  | none => exact wp_fetchAndReport_serves plan _ x₁
  | some deadline =>
      refine (Prog.wp_bind ..).2 (Prog.wp_mono ?_ (fun _ _ _ => trivial) _ _
        (wp_unserved unserved_utcNow x₁))
      intro x₂ now _
      split
      · exact wp_fetchAndReport_serves plan _ x₂
      · refine (Prog.wp_bind ..).2 (Prog.wp_mono ?_ (fun _ _ _ => trivial) _ _
          (wp_unserved hcheck x₂))
        intro x₃ budgetError _
        cases budgetError with
        | some error =>
            exact Prog.wp_mono (fun _ _ _ => trivial) (fun _ _ _ => trivial) _ _
              (wp_unserved (unserved_endBudgetedItem plan error) x₃)
        | none =>
            refine (Prog.wp_bind ..).2 (Prog.wp_mono ?_ (fun _ _ _ => trivial) _ _
              (wp_unserved hread x₃))
            intro x₄ deadline' _
            have hrest : (Worker.remainingAfterRecheck w deadline').AllOps Unserved := by
              cases deadline' with
              | none => exact .ret _
              | some deadline' => exact .bind unserved_utcNow fun _ => .ret _
            refine (Prog.wp_bind ..).2 (Prog.wp_mono ?_ (fun _ _ _ => trivial) _ _
              (wp_unserved hrest x₄))
            intro x₅ remaining _
            exact wp_fetchAndReport_serves plan _ x₅

/-- Whatever a pass has claimed, it completes missing work or what it has fetched. -/
theorem wp_workClaimed_serves {x : Serving} (hx : x.kind = some item.workKind) :
    (Worker.workClaimed w item).wp serves (fun _ _ => True) (fun _ _ => True) x := by
  by_cases hkind : item.workKind = .fetchMissing
  · refine Leads.wp (J := fun x => x.kind = some .fetchMissing) ?_ ?_ (fun _ _ _ _ => trivial)
      (fun _ _ _ => trivial) Worker.prepares_workClaimed x (hx.trans (congrArg some hkind))
    · intro o ho x hx
      refine ⟨?_, ?_⟩
      · change x.Allowed o
        unfold Serving.Allowed
        split
        · exact Or.inl hx
        · trivial
      · rintro r x' ⟨t, s, s', _, _, rfl⟩
        unfold Serving.step
        split <;> first | exact hx | exact ho.elim
    · rintro p ⟨plan, _, rfl⟩ x _
      exact wp_fetchWithinDeadline_serves plan x
  · refine Leads.wp (J := fun _ => True) ?_ ?_ (fun _ _ _ _ => trivial) (fun _ _ _ => trivial)
      (leads_workClaimed hkind) x trivial
    · intro o ho x _
      exact ⟨ho.allowed x, fun _ _ _ => trivial⟩
    · rintro p rfl x _
      exact wp_fetchWithinDeadline_serves none x

end Pass

theorem wp_runOnce_serves (w : WorkerConfig) (targets : Option (List CacheKey)) (x : Serving) :
    (Worker.runOnce w targets).wp serves (fun _ _ => True) (fun _ _ => True) x := by
  have hinit : initSchema.AllOps Unserved := .call trivial
  refine (Prog.wp_bind ..).2 (Prog.wp_mono ?_ (fun _ _ _ => trivial) _ _ (wp_unserved hinit x))
  intro x₁ _ _
  refine (Prog.wp_bind ..).2 ?_
  unfold claimNextQueueItem
  split
  · trivial
  · refine (Prog.wp_call ..).2 ⟨trivial, ?_, fun _ _ _ => trivial⟩
    rintro item x' ⟨t, s, s', _, _, rfl⟩
    cases item with
    | none => trivial
    | some item => exact wp_workClaimed_serves rfl

theorem unserved_of_harvesting {o : Op} (ho : Harvest.Harvesting o) : Unserved o := by
  unfold Harvest.Harvesting at ho
  split at ho <;> first | exact trivial | exact ho.elim

theorem unserved_of_feeding {o : Op} (ho : Worker.Feeding o) : Unserved o := by
  unfold Worker.Feeding at ho
  split at ho <;> first | exact trivial | exact ho.elim

/-- Every client keeps the discipline of completions. -/
theorem keeps_program_serves (d : Deployment) (c : Client) (pid : Nat) (x : Serving) :
    (c.program d pid).Keeps serves x := by
  have hfeeding := Worker.feeding_program d c pid
  cases c with
  | runOnce targets =>
      exact (Prog.wp_bind ..).2 (Prog.wp_mono (fun _ _ _ => trivial) (fun _ _ _ => trivial) _ _
        (wp_runOnce_serves ⟨d, .worker pid⟩ targets x))
  | harvestOai request =>
      have hharvest := (Harvest.harvesting_harvestOai (d := d) request).mono
        fun _ ho => unserved_of_harvesting ho
      exact (Prog.wp_bind ..).2 (Prog.wp_mono (fun _ _ _ => trivial) (fun _ _ _ => trivial) _ _
        (wp_unserved hharvest x))
  | enqueueRequestForWork request cacheKey workKind budgetId =>
      exact Prog.keeps_of_wp (wp_unserved (hfeeding.mono fun _ => unserved_of_feeding) x)
  | enqueueRefreshIfDue request cacheKey =>
      exact Prog.keeps_of_wp (wp_unserved (hfeeding.mono fun _ => unserved_of_feeding) x)
  | createUpstreamRequestBudget maxRequests deadlineAt =>
      exact Prog.keeps_of_wp (wp_unserved (hfeeding.mono fun _ => unserved_of_feeding) x)
  | failActiveUpstreamBudgetItems budgetId category message =>
      exact Prog.keeps_of_wp (wp_unserved (hfeeding.mono fun _ => unserved_of_feeding) x)

section Runs

variable {d : Deployment}

/-- What is known of the reading and the fetch of the process `p`. -/
abbrev serving (p : Nat) (h : History (fleet d)) : Serving :=
  (servingMonitor : Monitor (fleet d) Serving).view p h

/-- In every run of the fleet every completion was of missing work or of fetched work. -/
theorem serves_after (d : Deployment) (sched : List (Config.Choice (fleet d))) :
    Throughout (Disciplined serves (servingMonitor : Monitor (fleet d) Serving).view)
      (Config.after (fleet d) sched).history :=
  (servingMonitor : Monitor (fleet d) Serving).disciplined_after (J := fun _ _ => True)
    { initial := fun _ => trivial
      start := fun _ _ _ _ _ => trivial
      step := fun _ _ _ _ _ _ => trivial
      crash := fun _ _ _ => trivial }
    (fun pid _ c _ _ _ => keeps_program_serves d c pid {}) sched

/-! ## Joins and fetches -/

/-- A call for work that is to be refreshed. -/
def asksRefresh : Op → Bool
  | .queue (.enqueueRequestForWork _ _ .refreshCompleted _ _ _) | .enqueueRefreshIfDue .. => true
  | _ => false

/-- The request to the server has succeeded. -/
def endsFetch : (o : Op) → Except Exn o.Res → Bool
  | .upstream .fetchEnd, .ok _ => true
  | _, _ => false

/-- A refresh that joins the item is committed. -/
def joinsRefresh (e : Event (fleet d)) (requestId : Uuid) : Bool :=
  match e.action with
  | .op o r =>
      asksRefresh o && joins? o e.before.queue = some requestId &&
        (r.toBool || e.after.queue ≠ e.before.queue)
  | _ => false

/-- A fetch of the item succeeds. -/
def fetchSucceeds (pre : History (fleet d)) (e : Event (fleet d)) (requestId : Uuid) : Bool :=
  match e.action with
  | .op o r => endsFetch o r && (serving e.pid pre).call = some requestId
  | _ => false

/-- A refresh has joined the item, and no fetch of it has succeeded since. -/
def owed (requestId : Uuid) : History (fleet d) → Bool
  | [] => false
  | e :: pre => !fetchSucceeds pre e requestId && (joinsRefresh e requestId || owed requestId pre)

/-- A refresh has joined the item since the process's last fetch succeeded. -/
def joinedSinceFetch (p : Nat) (requestId : Uuid) : History (fleet d) → Bool
  | [] => false
  | e :: pre =>
      !(e.pid = p && (match e.action with
        | .op o r => endsFetch o r
        | _ => false)) &&
        (joinsRefresh e requestId || joinedSinceFetch p requestId pre)

/-- The item that the event is to complete. -/
def completes? (e : Event (fleet d)) : Option Uuid :=
  match e.action with
  | .op (.queue (.completeQueueItem requestId _)) _ => some requestId
  | _ => none

/-- The item is completed as it was read: no refresh has joined it since the pass has fetched it
or, where the pass has not, the row is still of the kind the claim has read. -/
def CompletesAsRead (pre : History (fleet d)) (e : Event (fleet d)) : Prop :=
  ∀ requestId ∈ completes? e,
    if (serving e.pid pre).fetched.isSome = true then
      joinedSinceFetch e.pid requestId pre = false
    else ∀ row ∈ e.before.queue.items, row.requestId = requestId →
      (serving e.pid pre).kind = some row.workKind

/-- The event sets the item to completed. -/
def SetsCompleted (e : Event (fleet d)) (requestId : Uuid) : Prop :=
  ∃ row ∈ e.before.queue.items, ∃ row' ∈ e.after.queue.items, row.requestId = requestId ∧
    row'.requestId = requestId ∧ row.status ≠ .completed ∧ row'.status = .completed

/-- No item is set to completed while it owes a refresh. -/
def RefreshServed (pre : History (fleet d)) (e : Event (fleet d)) : Prop :=
  ∀ requestId, SetsCompleted e requestId → owed requestId pre = false

instance (pre : History (fleet d)) (e : Event (fleet d)) : Decidable (CompletesAsRead pre e) := by
  unfold CompletesAsRead
  infer_instance

instance (e : Event (fleet d)) (requestId : Uuid) : Decidable (SetsCompleted e requestId) := by
  unfold SetsCompleted
  infer_instance

/-! ## What a row says of the refreshes -/

theorem Kept.refresh {row row' : QueueRow} (h : Kept row row')
    (hkind : row.workKind = .refreshCompleted) : row'.workKind = .refreshCompleted :=
  (congrArg (fun asked => asked.2.2) h.asked).trans hkind

theorem Joined.refresh {row row' : QueueRow} (h : Joined row row')
    (hkind : row.workKind = .refreshCompleted) : row'.workKind = .refreshCompleted := by
  rcases h.asked with hsame | ⟨_, hsame | hrefresh⟩
  · exact (congrArg (fun asked => asked.2.2) hsame).trans hkind
  · exact hsame.trans hkind
  · exact hrefresh

/-- Work that is to be refreshed stays so. -/
theorem RowEffect.refresh {o : Op} {t : Int} {q : QueueTables} {row row' : QueueRow}
    (h : RowEffect o t q row row') (hkind : row.workKind = .refreshCompleted) :
    row'.workKind = .refreshCompleted := by
  unfold RowEffect at h
  split at h
  case h_1 => rw [h.2]; exact hkind
  case h_2 => rw [h.2]; exact hkind
  case h_3 => rw [h.2.2]; exact hkind
  case h_4 => rw [h.2]; exact hkind
  case h_5 =>
    rcases h with h | ⟨_, h⟩
    · exact h.refresh hkind
    · exact (congrArg (fun asked => asked.2.2) h.asked).trans hkind
  case h_6 => exact h.2.refresh hkind
  case h_7 => exact h.2.refresh hkind
  case h_8 => exact h.refresh hkind
  case h_9 => exact h.refresh hkind
  case h_10 => rw [h.2.2.2]; exact hkind
  case h_11 => exact h.elim

/-- Only a completion, or a release that says so, sets a row to completed. -/
theorem RowEffect.completed {o : Op} {t : Int} {q : QueueTables} {row row' : QueueRow}
    (h : RowEffect o t q row row') (hbefore : row.status ≠ .completed)
    (hafter : row'.status = .completed) :
    (∃ timestamp, o = .queue (.completeQueueItem row.requestId timestamp)) ∨
      ∃ nextAttemptAt category message timestamp,
        o = .queue (.releaseOrDelayQueueItem row.requestId nextAttemptAt category message
          .completed timestamp) := by
  have hkept : row'.status = row.status → False := fun h => hbefore (h.symm.trans hafter)
  unfold RowEffect at h
  split at h
  case h_1 =>
    rw [h.2] at hafter
    cases hafter
  case h_2 =>
    rcases h with ⟨rfl, _⟩
    exact Or.inl ⟨_, rfl⟩
  case h_3 =>
    rcases h with ⟨rfl, _, rfl⟩
    cases hafter
    exact Or.inr ⟨_, _, _, _, rfl⟩
  case h_4 =>
    rw [h.2] at hafter
    cases hafter
  case h_5 =>
    rcases h with h | ⟨_, h⟩
    · exact (hkept h.status).elim
    · have hfailed := congrArg Prod.fst h.standing
      rw [standing, hafter] at hfailed
      cases hfailed
  case h_6 => exact (hkept h.2.status).elim
  case h_7 => exact (hkept h.2.status).elim
  case h_8 => exact (hkept h.status).elim
  case h_9 => exact (hkept h.status).elim
  case h_10 => exact (hkept (by rw [h.2.2.2]; rfl)).elim
  case h_11 => exact h.elim

/-- A refresh makes a refresh of what it joins. -/
theorem joinRequest_refresh (existing : QueueRow) (request : ArxivRequest) (timeout : Timeout) :
    match joinRequest existing request .refreshCompleted timeout with
    | some joined => joined.2 = .refreshCompleted
    | none => existing.workKind = .refreshCompleted := by
  by_cases hkind : existing.workKind = .refreshCompleted
  · split
    · rename_i joined hjoin
      rcases joinRequest_kind hjoin with hsame | hrefresh
      · exact hsame.trans hkind
      · exact hrefresh
    · exact hkind
  · simp only [joinRequest, if_true, ne_eq, hkind, not_false_eq_true]
    split
    · rename_i joined hjoin
      rcases Option.map_eq_some_iff.1 hjoin with ⟨_, _, rfl⟩
      rfl
    · rename_i hnone
      split at hnone <;> cases hnone

theorem joinPending_refresh {q : QueueTables} {existing : QueueRow} (hmem : existing ∈ q.items)
    (request : ArxivRequest) (budgetId : Option Uuid) (timeout : Timeout) (now : Int) :
    ∃ row ∈ (q.joinPending existing request .refreshCompleted budgetId timeout now).items,
      row.requestId = existing.requestId ∧ row.workKind = .refreshCompleted := by
  have hmerged : ∃ row ∈ (q.mergeRequest existing request .refreshCompleted timeout now).items,
      row.requestId = existing.requestId ∧ row.workKind = .refreshCompleted := by
    have hkind := joinRequest_refresh existing request timeout
    unfold mergeRequest
    split at hkind
    · rename_i joined hjoin
      rw [hjoin]
      exact ⟨_, mem_updateItem.2 (Or.inr ⟨existing, hmem, rfl, rfl⟩), rfl, hkind⟩
    · rename_i hnone
      rw [hnone]
      exact ⟨existing, hmem, rfl, hkind⟩
  rcases hmerged with ⟨row, hrow, hid, hkind⟩
  rcases changes_joinDemand (q := q.mergeRequest existing request .refreshCompleted timeout now)
    existing budgetId now with ⟨change, hitems, hrows⟩
  refine ⟨change row, ?_, ?_⟩
  · rw [joinPending, hitems]
    exact List.mem_map_of_mem hrow
  · rcases hrows row hrow with hsame | hjoined
    · rw [hsame]
      exact ⟨hid, hkind⟩
    · exact ⟨hjoined.requestId.trans hid, hjoined.refresh hkind⟩

theorem enqueue_refresh {q : QueueTables} {cacheKey : CacheKey} {existing : QueueRow}
    (hpending : q.pendingItem? cacheKey = some existing) (fresh : Uuid) (request : ArxivRequest)
    (budgetId : Option Uuid) (timeout : Timeout) (now : Int)
    (hcommitted : (q.enqueueRequestForWork fresh request cacheKey .refreshCompleted budgetId
        timeout now).1.toBool = true ∨
      (q.enqueueRequestForWork fresh request cacheKey .refreshCompleted budgetId timeout
        now).2 ≠ q) :
    ∃ row ∈ (q.enqueueRequestForWork fresh request cacheKey .refreshCompleted budgetId timeout
        now).2.items,
      row.requestId = existing.requestId ∧ row.workKind = .refreshCompleted := by
  have hmem := (mem_of_pendingItem? hpending).1
  unfold QueueTables.enqueueRequestForWork at hcommitted ⊢
  split
  · rename_i hmissing
    rw [if_pos hmissing] at hcommitted
    rcases hcommitted with hok | hchanged
    · cases hok
    · exact absurd rfl hchanged
  · rename_i hfound
    simp only [hpending] at hcommitted ⊢
    rw [if_neg hfound] at hcommitted
    split
    · exact joinPending_refresh hmem request budgetId timeout now
    · rename_i hfails
      rw [if_neg hfails] at hcommitted
      rcases hcommitted with hok | hchanged
      · cases hok
      · exact absurd rfl hchanged

/-- After a refresh has joined an item, its row is of that kind. -/
theorem refresh_of_joined {o : Op} {t : Int} {r : Except Exn o.Res} {s s' : Store}
    (h : Store.Performed o t r s s') (ho : asksRefresh o = true) {requestId : Uuid}
    (hjoins : joins? o s.queue = some requestId)
    (hcommitted : r.toBool = true ∨ s'.queue ≠ s.queue) :
    ∃ row ∈ s'.queue.items, row.requestId = requestId ∧ row.workKind = .refreshCompleted := by
  -- Whatever was answered, the operation has taken effect.
  have heffect : ∃ input, s'.queue = (Store.exec o t input s).2.queue ∧
      ((Store.exec o t input s).1.toBool = true ∨ (Store.exec o t input s).2.queue ≠ s.queue) := by
    rcases h with ⟨input, _, hexec⟩ | ⟨e, _, rfl, rfl | ⟨input, rfl⟩⟩
    · exact ⟨input, by rw [hexec], by rw [hexec]; exact hcommitted⟩
    · rcases hcommitted with hok | hchanged
      · cases hok
      · exact absurd rfl hchanged
    · rcases hcommitted with hok | hchanged
      · cases hok
      · exact ⟨input, rfl, Or.inr hchanged⟩
  clear hcommitted
  rcases heffect with ⟨input, hqueue, hcommitted⟩
  rw [hqueue]
  unfold asksRefresh at ho
  split at ho
  · rename_i request cacheKey budgetId timeout now
    rcases Option.map_eq_some_iff.1 hjoins with ⟨existing, hpending, rfl⟩
    exact enqueue_refresh hpending s.nextUuid request budgetId timeout now hcommitted
  · rename_i request cacheKey timeout now
    rcases Option.map_eq_some_iff.1 hjoins with ⟨existing, hpending, rfl⟩
    have hsome : (s.queue.pendingItem? cacheKey).isSome = true := by simp [hpending]
    simp only [Store.exec, Store.enqueueRefreshIfDue, hsome, if_true] at hcommitted ⊢
    refine enqueue_refresh hpending s.nextUuid request none timeout now (hcommitted.imp ?_ id)
    intro hok
    generalize (s.queue.enqueueRequestForWork s.nextUuid request cacheKey .refreshCompleted none
      timeout now).1 = answer at hok ⊢
    cases answer with
    | ok b => rfl
    | error e => cases hok
  · cases ho

/-! ## What every run keeps -/

/-- What every run keeps of the refreshes that are owed. -/
structure Owing (pre : History (fleet d)) : Prop where
  row : ∀ requestId, owed requestId pre = true →
    ∃ row ∈ (stateAfter pre).queue.items, row.requestId = requestId ∧
      row.workKind = .refreshCompleted
  on : ∀ p requestId, ((serving p pre).call = some requestId ∨
    (serving p pre).fetched = some requestId) → (pass p pre).On requestId
  joined : ∀ p requestId, (serving p pre).fetched = some requestId →
    owed requestId pre = true → joinedSinceFetch p requestId pre = true

variable {pre : History (fleet d)} {e : Event (fleet d)}

theorem serving_of_ne {p : Nat} (hne : e.pid ≠ p) : serving p (e :: pre) = serving p pre :=
  servingMonitor.view_of_ne pre hne

theorem serving_of_op {o : Op} {r : Except Exn o.Res} (ha : e.action = .op o r) :
    serving e.pid (e :: pre) = (serving e.pid pre).step o r :=
  servingMonitor.view_of_op pre ha

theorem serving_of_not_op (ha : ∀ o r, e.action ≠ .op o r) : serving e.pid (e :: pre) = {} := by
  cases hact : e.action with
  | start c => exact servingMonitor.view_of_start pre hact
  | op o r => exact absurd hact (ha o r)
  | crash => exact servingMonitor.view_of_crash pre hact

/-- An operation that ends no fetch leaves no new one. -/
theorem Serving.fetched_of_step {x : Serving} {o : Op} {r : Except Exn o.Res} {requestId : Uuid}
    (hends : endsFetch o r = false) (h : (x.step o r).fetched = some requestId) :
    x.fetched = some requestId := by
  unfold Serving.step at h
  split at h
  · cases h
  · cases h
  · cases hends
  · exact h

theorem Serving.fetched_of_ends {x : Serving} {o : Op} {r : Except Exn o.Res}
    (hends : endsFetch o r = true) : (x.step o r).fetched = x.call := by
  unfold endsFetch at hends
  split at hends
  · rfl
  · cases hends

/-- What a pass calls for or has fetched is the item it works on. -/
theorem on_step {x : Serving} {y : PassView} {o : Op} {r : Except Exn o.Res} {requestId : Uuid}
    (hallow : y.Allowed o)
    (hon : (x.call = some requestId ∨ x.fetched = some requestId) → y.On requestId)
    (h : (x.step o r).call = some requestId ∨ (x.step o r).fetched = some requestId) :
    (y.step o r).On requestId := by
  have hitem := item_step y o r
  have hstill : claimed? o r = none → y.On requestId → (y.step o r).On requestId := by
    rintro hnone ⟨item, hy, hid⟩
    exact ⟨item, by rw [hitem, hnone]; exact hy, hid⟩
  unfold Serving.step at h
  split at h
  · rcases h with h | h <;> cases h
  · rcases h with h | h
    · rcases hallow with ⟨_, item, hy, hcall, _⟩
      cases h
      exact hstill rfl ⟨item, hy, hcall.symm⟩
    · cases h
  · refine hstill rfl (hon ?_)
    rcases h with h | h
    · exact Or.inl h
    · exact Or.inl h
  · rename_i hnoclaim _ _
    refine hstill ?_ (hon h)
    cases hclaimed : claimed? o r with
    | none => rfl
    | some item =>
        unfold claimed? at hclaimed
        split at hclaimed
        · subst hclaimed
          exact (hnoclaim _ _ _ item rfl HEq.rfl).elim
        · cases hclaimed

theorem owing_nil : Owing (d := d) [] where
  row := by
    intro requestId howed
    cases howed
  on := by
    rintro p requestId (h | h) <;> cases h
  joined := by
    intro p requestId h
    cases h

theorem owing_step (hlegal : Legal pre e) (hledger : Ledger (stateAfter pre).nextUuid
      (stateAfter pre).queue)
    (hpasses : Disciplined passes (passMonitor : Monitor (fleet d) PassView).view pre e)
    (hI : Owing pre) : Owing (e :: pre) := by
  by_cases ha : ∃ o r, e.action = .op o r
  · rcases ha with ⟨o, r, ha⟩
    have hperf := performed_of_op hlegal ha
    refine ⟨?_, ?_, ?_⟩
    · intro requestId howed
      simp only [owed, Bool.and_eq_true, Bool.or_eq_true] at howed
      rcases howed.2 with hjoins | howed
      · simp only [joinsRefresh, ha, hlegal.before_eq, Bool.and_eq_true, Bool.or_eq_true,
          decide_eq_true_eq] at hjoins
        exact refresh_of_joined hperf hjoins.1.1 hjoins.1.2 hjoins.2
      · rcases hI.row requestId howed with ⟨row, hrow, hid, hkind⟩
        rcases row_after hledger hperf hrow with ⟨row', hrow', hid', hsame | hchanged⟩
        · exact ⟨row', hrow', hid'.trans hid, by rw [hsame]; exact hkind⟩
        · exact ⟨row', hrow', hid'.trans hid, hchanged.refresh hkind⟩
    · intro p requestId h
      by_cases hp : e.pid = p
      · subst hp
        rw [serving_of_op ha] at h
        rw [pass_of_op pre ha]
        exact on_step (hpasses.1 o r ha) (hI.on e.pid requestId) h
      · rw [serving_of_ne hp] at h
        rw [pass_of_ne pre hp]
        exact hI.on p requestId h
    · intro p requestId hfetched howed
      simp only [owed, Bool.and_eq_true, Bool.or_eq_true, Bool.not_eq_true'] at howed
      have hstill : (serving p pre).fetched = some requestId →
          (joinsRefresh e requestId || joinedSinceFetch p requestId pre) = true := by
        intro hfetched
        rcases howed.2 with hjoins | howed
        · simp [hjoins]
        · simp [hI.joined p requestId hfetched howed]
      simp only [joinedSinceFetch, ha]
      by_cases hp : e.pid = p
      · subst hp
        rw [serving_of_op ha] at hfetched
        cases hends : endsFetch o r with
        | true =>
            -- The fetch has just succeeded, so nothing is owed.
            rw [Serving.fetched_of_ends hends] at hfetched
            simp [fetchSucceeds, ha, hends, hfetched] at howed
        | false => simpa using hstill (Serving.fetched_of_step hends hfetched)
      · rw [serving_of_ne hp] at hfetched
        simpa [hp] using hstill hfetched
  · have hno : ∀ o r, e.action ≠ .op o r := fun o r h => ha ⟨o, r, h⟩
    have hstate : stateAfter (e :: pre) = stateAfter pre := after_eq_of_not_op hlegal hno
    have hquiet : ∀ requestId, joinsRefresh e requestId = false ∧
        fetchSucceeds pre e requestId = false := by
      intro requestId
      cases hact : e.action with
      | start c => simp [joinsRefresh, fetchSucceeds, hact]
      | op o r => exact absurd hact (hno o r)
      | crash => simp [joinsRefresh, fetchSucceeds, hact]
    have howes : ∀ requestId, owed requestId (e :: pre) = owed requestId pre := by
      intro requestId
      simp [owed, hquiet requestId]
    refine ⟨?_, ?_, ?_⟩
    · intro requestId howed
      rw [howes] at howed
      rw [hstate]
      exact hI.row requestId howed
    · intro p requestId h
      by_cases hp : e.pid = p
      · subst hp
        rw [serving_of_not_op hno] at h
        rcases h with h | h <;> cases h
      · rw [serving_of_ne hp] at h
        rw [pass_of_ne pre hp]
        exact hI.on p requestId h
    · intro p requestId hfetched howed
      rw [howes] at howed
      by_cases hp : e.pid = p
      · subst hp
        rw [serving_of_not_op hno] at hfetched
        cases hfetched
      · rw [serving_of_ne hp] at hfetched
        simpa [joinedSinceFetch, hp, hquiet requestId] using
          hI.joined p requestId hfetched howed

/-! ## The theorem -/

theorem refreshServed_of_owing (hlegal : Legal pre e)
    (hledger : Ledger (stateAfter pre).nextUuid (stateAfter pre).queue)
    (hpasses : Disciplined passes (passMonitor : Monitor (fleet d) PassView).view pre e)
    (hserves : Disciplined serves (servingMonitor : Monitor (fleet d) Serving).view pre e)
    (hread : CompletesAsRead pre e) (hI : Owing pre) : RefreshServed pre e := by
  rintro requestId ⟨row, hrow, row', hrow', hid, hid', hbefore, hafter⟩
  rw [hlegal.before_eq] at hrow
  -- Only a completion by a pass that works on the item does this.
  by_cases ha : ∃ o r, e.action = .op o r
  case neg =>
    have hstate := after_eq_of_not_op hlegal fun o r h => ha ⟨o, r, h⟩
    rw [hstate] at hrow'
    have hsame := eq_of_mem_of_requestId hledger.nodup hrow' hrow (hid'.trans hid.symm)
    rw [hsame] at hafter
    exact absurd hafter hbefore
  case pos =>
    rcases ha with ⟨o, r, ha⟩
    have hchanged : RowEffect o e.time (stateAfter pre).queue row row' := by
      rcases row_changed hledger (performed_of_op hlegal ha) hrow hrow' (hid'.trans hid.symm) with
        hsame | hchanged
      · rw [hsame] at hafter
        exact absurd hafter hbefore
      · exact hchanged
    rcases hchanged.completed hbefore hafter with ⟨timestamp, rfl⟩ | ⟨_, _, _, _, rfl⟩
    case inr =>
      rcases hpasses.1 _ r ha with ⟨_, hstatus | ⟨hstatus, _⟩⟩ <;> cases hstatus
    case inl =>
      have hon : (pass e.pid pre).On row.requestId := hpasses.1 _ r ha
      have hallow : (serving e.pid pre).Allowed _ := hserves.1 _ r ha
      have hcompletes : row.requestId ∈ completes? e := by
        simp [completes?, ha]
      have hasRead := hread row.requestId hcompletes
      rw [← hid]
      by_contra howed
      have howed : owed row.requestId pre = true := by simpa using howed
      split at hasRead
      · rename_i hfetched
        rcases Option.isSome_iff_exists.1 hfetched with ⟨fetched, hfetched⟩
        -- What the pass has fetched is the item it completes.
        have hsame : fetched = row.requestId := by
          rcases hI.on e.pid fetched (Or.inr hfetched) with ⟨item, hitem, rfl⟩
          rcases hon with ⟨item', hitem', hid''⟩
          rw [hitem] at hitem'
          cases hitem'
          exact hid''
        rw [hsame] at hfetched
        rw [hI.joined e.pid row.requestId hfetched howed] at hasRead
        cases hasRead
      · rename_i hunfetched
        have hmissing := hallow.resolve_right hunfetched
        rcases hI.row row.requestId howed with ⟨row₀, hrow₀, hid₀, hkind⟩
        have hread := hasRead row₀ (by rw [hlegal.before_eq]; exact hrow₀) hid₀
        rw [hmissing, hkind] at hread
        cases hread

/-- In every run that completes items as they were read no refresh is lost. -/
theorem refresh_served (d : Deployment) (sched : List (Config.Choice (fleet d)))
    (hread : Throughout CompletesAsRead (Config.after (fleet d) sched).history) :
    Throughout RefreshServed (Config.after (fleet d) sched).history := by
  have hlegal := (Config.legal_after (fleet d) sched).with_past
  have hruns := (hlegal.and ((passes_after d sched).and (serves_after d sched))).and hread
  refine Throughout.of_invariant owing_nil ?_ ?_ hruns
  · rintro pre e hI ⟨⟨⟨hlegal, hpast⟩, hpasses, _⟩, _⟩
    exact owing_step hlegal (ledger_after hpast) hpasses hI
  · rintro pre e hI ⟨⟨⟨hlegal, hpast⟩, hpasses, hserves⟩, hread⟩
    exact refreshServed_of_owing hlegal (ledger_after hpast) hpasses hserves hread hI

/-- A search, what the server answers to it, and a pass up to the answer. -/
def plainSearch : ArxivRequest :=
  { clientId := "reader", searchQuery := some "cat:cs.AI" }

def emptyFeed : Input :=
  { fetch := .ok { papers := [], totalResults := some 0, upstreamStatus := 200 } }

def searchSent : List (Config.Choice (fleet {})) :=
  .start 0 (.enqueueRequestForWork plainSearch (Keys.requestCacheKey plainSearch) .fetchMissing
    none) :: runs 0 2 ++ .start 1 (.runOnce none) :: runs 1 20

/-- A refresh joins while the fetch is in flight, and counts as served by it. -/
theorem refresh_served_in_flight :
    Throughout RefreshServed (Config.after (fleet {}) (searchSent ++
      .start 2 (.enqueueRequestForWork plainSearch (Keys.requestCacheKey plainSearch)
        .refreshCompleted none) :: runs 2 2 ++ .run 1 emptyFeed :: runs 1 10)).history :=
  refresh_served {} _ (by decide +kernel)

/-- The search is in the cache and queued once more; the pass has claimed it when a refresh joins,
and finds the cache as it expects. -/
def refreshAfterClaim : List (Config.Choice (fleet {})) :=
  searchSent ++ .run 1 emptyFeed :: runs 1 10 ++
    .start 0 (.enqueueRequestForWork plainSearch (Keys.requestCacheKey plainSearch) .fetchMissing
      none) :: runs 0 2 ++
    .start 1 (.runOnce none) :: runs 1 2 ++
    .start 2 (.enqueueRequestForWork plainSearch (Keys.requestCacheKey plainSearch)
      .refreshCompleted none) :: runs 2 2 ++ runs 1 6

/-- The pass completes the item, and the refresh is lost. -/
theorem refresh_lost :
    ¬ Throughout RefreshServed (Config.after (fleet {}) refreshAfterClaim).history := by
  have hlost : ((Config.after (fleet {}) refreshAfterClaim).history.head?.any fun e =>
      decide (SetsCompleted e 7)) = true ∧
        owed 7 (Config.after (fleet {}) refreshAfterClaim).history.tail = true := by
    decide +kernel
  generalize (Config.after (fleet {}) refreshAfterClaim).history = h at hlost
  intro hserved
  cases h with
  | nil => cases hlost.1
  | cons e pre =>
      have howed := hserved.head 7 (of_decide_eq_true hlost.1)
      have hstill : owed 7 pre = true := hlost.2
      rw [howed] at hstill
      cases hstill

end Runs

end Queue
end Huldra
