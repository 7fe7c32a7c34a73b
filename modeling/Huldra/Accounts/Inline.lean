import Huldra.Accounts.Tally
import Huldra.ArchiveClients
import Huldra.Maintenance.Parts

/-!
# Inline — what a maintenance call reports of its own passes

`sync_windows` fetches with workers of its own while it waits, and counts the passes whose status
says that they have fetched.  Between the passes nothing is fetched, so the count is that of the
fetches.
-/

namespace Huldra
namespace Accounts

open Process (Prog Discipline)
open Process.System (Monitor)
open Worker (Quietly)

/-! ## The broker fetches nothing -/

section Broker

variable {d : Deployment}

theorem quietly_enqueueRequestForWork (request : ArxivRequest) (cacheKey : CacheKey)
    (workKind : QueueWorkKind) (budgetId : Option Uuid) (timeout : Timeout) :
    Quietly (enqueueRequestForWork request cacheKey workKind budgetId timeout) :=
  .bind Worker.quietly_utcNow fun _ => .call trivial

theorem quietly_failActiveUpstreamBudgetItems (budgetId : Uuid) (category message : String) :
    Quietly (failActiveUpstreamBudgetItems budgetId category message) :=
  .bind Worker.quietly_utcNow fun _ => .call trivial

theorem quietly_createUpstreamRequestBudget (maxRequests : Nat) (deadlineAt : Option Int) :
    Quietly (createUpstreamRequestBudget maxRequests deadlineAt) := by
  unfold createUpstreamRequestBudget
  split
  · exact .raise _
  · exact .bind Worker.quietly_utcNow fun _ => .call trivial

theorem quietly_resultFromCompletedCache (request : ArxivRequest) (cacheKey : CacheKey)
    (entry : CacheEntry) (requestId : Option Uuid) :
    Quietly (Broker.resultFromCompletedCache d request cacheKey entry requestId) := by
  refine .bind (.call trivial) fun _ => .bind ?_ fun _ => .ret _
  unfold Broker.evaluateReadiness
  split
  · dsimp only
    split
    · exact .ret _
    · exact .bind Worker.quietly_utcNow fun _ => .ret _
  · exact .ret _

theorem quietly_tryComposeCachedIdList (request : ArxivRequest) (cacheKey : CacheKey) :
    Quietly (Broker.tryComposeCachedIdList d request cacheKey) := by
  unfold Broker.tryComposeCachedIdList
  split
  · exact .ret _
  · refine .bind (Worker.quietly_getPapersByIds _) fun papersById => ?_
    split
    · exact .ret _
    · refine .bind (Worker.quietly_recordComposed ..) fun _ =>
        .bind (Worker.quietly_getReadableCompletedCache _) fun entry => ?_
      cases entry with
      | none => exact .raise _
      | some entry => exact .bind (quietly_resultFromCompletedCache ..) fun _ => .ret _

theorem quietly_getResult (cacheKey : CacheKey) : Quietly (Broker.getResult cacheKey) := by
  refine .bind (.call trivial) fun entry => ?_
  split
  · exact .ret _
  · split
    · refine .bind (Worker.quietly_getReadableCompletedCache _) fun readable => ?_
      split
      · exact .ret _
      · exact .bind (.call trivial) fun _ => .ret _
    · exact .ret _

theorem quietly_waitRounds (request : ArxivRequest) (cacheKey : CacheKey) (requestId : Uuid)
    (timeout deadline : Timeout) (rounds : Nat) :
    Quietly (Broker.waitRounds d request cacheKey requestId timeout deadline rounds) := by
  have hround : Quietly (Broker.waitRound d request cacheKey requestId) := by
    refine .bind (.call trivial) fun entry => ?_
    split
    · exact .ret _
    · split
      all_goals
        refine .bind
          (by first | exact Worker.quietly_getReadableCompletedCache _ | exact .ret _)
          fun readable => ?_
        cases readable with
        | some readable => exact .bind (quietly_resultFromCompletedCache ..) fun _ => .ret _
        | none =>
            refine .bind (.call trivial) fun item => ?_
            split
            · exact .bind (quietly_getResult _) fun _ => .ret _
            · exact .ret _
  induction rounds with
  | zero => exact .raise _
  | succ rounds ih =>
      refine .bind Worker.quietly_utcNow fun now => ?_
      split
      · refine .bind hround fun result => ?_
        cases result with
        | some result => exact .ret _
        | none => exact .bind (Worker.quietly_timeSleep _) fun _ => ih
      · exact .ret _

theorem quietly_enqueueMissing (request : ArxivRequest) (cacheKey : CacheKey) :
    Quietly (Broker.enqueueMissing d request cacheKey) := by
  refine .bind (quietly_enqueueRequestForWork ..) fun queued => .bind (.call trivial) fun rate => ?_
  have hwait : Quietly (Broker.waitUntilReady d request cacheKey queued.1.requestId) :=
    .bind Worker.quietly_utcNow fun _ => quietly_waitRounds ..
  cases rate.cooldownUntil with
  | none =>
      refine .bind (.ret none) fun coolingDown => ?_
      cases coolingDown with
      | some cooldown => exact .ret _
      | none =>
          dsimp only
          split
          · exact hwait
          · exact .ret _
  | some cooldown =>
      refine .bind Worker.quietly_utcNow fun now => .bind (.ret _) fun coolingDown => ?_
      cases coolingDown with
      | some cooldown => exact .ret _
      | none =>
          dsimp only
          split
          · exact hwait
          · exact .ret _

theorem quietly_ensure (request : ArxivRequest) : Quietly (Broker.ensure d request) := by
  refine .bind (Worker.quietly_getReadableCompletedCache _) fun cached => ?_
  cases cached with
  | some cached =>
      refine .bind (quietly_resultFromCompletedCache ..) fun result => ?_
      split
      · refine .bind (.bind Worker.quietly_utcNow fun _ => .call trivial) fun queued => ?_
        split
        · exact .ret _
        · exact .bind (.call trivial) fun _ => .ret _
      · exact .ret _
  | none =>
      refine .bind (quietly_tryComposeCachedIdList ..) fun composed => ?_
      cases composed with
      | some composed => exact .ret _
      | none =>
          dsimp only
          split
          · exact .ret _
          · exact quietly_enqueueMissing request _

end Broker

/-! ## Over the archive -/

section Archive

variable {d : Deployment} {β γ : Type}

def Tally.stepArchive (x : Tally) : (o : ArchiveOp) → Except Exn o.Res → Tally
  | .store o, r => x.step o r
  | .job _, _ => x

def Tally.AllowedArchive (x : Tally) : ArchiveOp → Prop
  | .store o => x.Allowed o
  | .job _ => True

/-- Follow the fetches of a process from its start on. -/
def tallyMonitor (d : Deployment) : Monitor (archiveFleet d) Tally where
  initial _ := {}
  start _ _ _ := {}
  step x o r _ := x.stepArchive o r
  crash x := x
  clock _ := 0
  clock_initial _ := Process.System.no_time
  clock_start _ _ _ h := h
  clock_step _ _ _ _ h := h
  clock_crash _ := Int.le_refl 0

/-- The same as `Tallied`, of a program over the archive. -/
abbrev Accounted (d : Deployment) (p : ArchiveProgram β) (x : Tally) (Q : Tally → β → Prop) :
    Prop :=
  p.wp ((tallyMonitor d).discipline Tally.AllowedArchive) Q (fun _ _ => True) x

theorem accounted_embed {p : Program β} {Q : Tally → β → Prop} :
    ∀ {x : Tally}, Tallied p x Q → Accounted d (embed p) x Q := by
  induction p with
  | ret b => exact fun h => h
  | raise e => exact fun _ => trivial
  | op o k ih =>
      intro x h
      refine ⟨h.1, ?_⟩
      rintro r _ ⟨t, s, s', _, _, rfl⟩
      exact ih r (h.2 r _ rfl)

/-- Nothing is fetched and nothing is counted. -/
def StillArchive : ArchiveOp → Prop
  | .store o => Still o
  | .job _ => True

abbrev Stilly (p : ArchiveProgram β) : Prop :=
  p.AllOps StillArchive

/-- A program that begins with `n` fetches, all counted, ends with as many as `get` says of its
value, all counted. -/
abbrev Reports (d : Deployment) (n : Nat) (get : β → Nat) (p : ArchiveProgram β) : Prop :=
  Accounted d p ⟨n, .settled⟩ fun x b => x = ⟨get b, .settled⟩

variable {n : Nat} {get : β → Nat} {p : ArchiveProgram β}

theorem Reports.bind {get' : γ → Nat} {f : β → ArchiveProgram γ} (hp : Reports d n get p)
    (hf : ∀ b, Reports d (get b) get' (f b)) : Reports d n get' (p >>= f) := by
  refine (Prog.wp_bind ..).2 (Prog.wp_mono ?_ (fun _ _ h => h) p _ hp)
  rintro _ b rfl
  exact hf b

theorem reports_still (h : Stilly p) : Reports d n (fun _ => n) p := by
  refine Prog.wp_mono (fun _ _ h => h) (fun _ _ _ => trivial) p _
    (h.wp (J := fun x : Tally => x = ⟨n, .settled⟩) ?_ _ rfl)
  rintro o ho _ rfl
  cases o with
  | store o =>
      refine ⟨Still.allowed ho rfl, ?_⟩
      rintro r _ ⟨t, s, s', _, _, rfl⟩
      exact Still.step_eq ho rfl r
  | job o =>
      refine ⟨trivial, ?_⟩
      rintro r _ ⟨t, s, s', _, _, rfl⟩
      rfl

theorem Reports.bind_still {get' : γ → Nat} {f : β → ArchiveProgram γ} (hp : Stilly p)
    (hf : ∀ b, Reports d n get' (f b)) : Reports d n get' (p >>= f) :=
  (reports_still hp).bind hf

theorem Reports.ret_bind {get' : γ → Nat} {b : β} {f : β → ArchiveProgram γ}
    (h : Reports d n get' (f b)) : Reports d n get' (Prog.ret b >>= f) :=
  h

theorem stilly_embed {p : Program β} (h : Quietly p) : Stilly (embed p) :=
  allOps_embed (h.mono fun _ => .of_quiet)

end Archive

namespace Inline

open Maintenance

section Pieces

variable {d : Deployment}

/-! ## Between the passes -/

theorem stilly_now : Stilly (embed utcNow) :=
  stilly_embed Worker.quietly_utcNow

theorem stilly_readable (cacheKey : CacheKey) :
    Stilly (embed (getReadableCompletedCache cacheKey)) :=
  stilly_embed (Worker.quietly_getReadableCompletedCache _)

theorem stilly_getCacheEntry (cacheKey : CacheKey) : Stilly (embed (getCacheEntry cacheKey)) :=
  stilly_embed (.call trivial)

theorem stilly_recordSyncJobPage (write : SyncJobPageWrite) : Stilly (recordSyncJobPage write) :=
  .bind stilly_now fun _ => .call trivial

theorem stilly_completeSyncJob (completion : SyncJobCompletion) :
    Stilly (completeSyncJob completion) :=
  .bind stilly_now fun _ => .call trivial

theorem stilly_refreshSyncJobPage (syncJobId : Uuid) (request : ArxivRequest)
    (cacheKey : CacheKey) : Stilly (refreshSyncJobPageFromCache syncJobId request cacheKey) :=
  .bind (stilly_getCacheEntry _) fun _ => .bind (stilly_recordSyncJobPage _) fun _ => .ret _

theorem stilly_getTargetItem (target : MaintenanceTarget) : Stilly (getTargetItem target) := by
  unfold getTargetItem
  split
  · exact stilly_embed (.call trivial)
  · exact .ret _

theorem stilly_deadlineCanFitRequests (deadline : Int) (requestsTotal : Nat) :
    Stilly (deadlineCanFitRequests d deadline requestsTotal) :=
  .bind stilly_now fun _ => .bind (stilly_embed (.call trivial)) fun _ => .bind stilly_now fun _ =>
    .ret _

theorem stilly_targetTerminal (target : MaintenanceTarget) : Stilly (targetTerminal target) := by
  refine .bind (stilly_readable _) fun readable => ?_
  split
  · exact .ret _
  · refine .bind (stilly_getCacheEntry _) fun entry =>
      .bind (stilly_getTargetItem target) fun item => ?_
    cases item with
    | none => exact .ret _
    | some item =>
        dsimp only
        split
        · exact .ret _
        · split
          · exact .ret _
          · split
            · exact .ret _
            · refine .bind stilly_now fun now => ?_
              split
              · exact .ret _
              · exact .ret _

theorem stilly_allTerminal (targets : List MaintenanceTarget) : Stilly (allTerminal targets) := by
  induction targets with
  | nil => exact .ret _
  | cons target rest ih =>
      refine .bind (stilly_targetTerminal target) fun terminal => ?_
      split
      · exact ih
      · exact .ret _

theorem stilly_expireTargets (message : String) (targets : List MaintenanceTarget) :
    Stilly (expireTargets message targets) := by
  induction targets with
  | nil => exact .ret _
  | cons target rest ih =>
      refine .bind (stilly_targetTerminal target) fun terminal => .bind ih fun others => ?_
      split
      · exact .ret _
      · exact .ret _

theorem stilly_deadlinePassed (mode : LegacySyncMode) (budget : MaintenanceBudget) :
    Stilly (deadlinePassed mode budget) := by
  unfold deadlinePassed
  split
  · exact .ret _
  · exact .bind stilly_now fun _ => .ret _

theorem stilly_planRequests (requests : List ArxivRequest) : Stilly (planRequests d requests) := by
  induction requests with
  | nil => exact .ret _
  | cons request rest ih =>
      refine .bind ?_ fun planned => .bind ih fun others => .ret _
      refine .bind (stilly_readable _) fun readable => ?_
      cases readable with
      | some readable => exact .ret _
      | none =>
          refine .bind (stilly_embed (quietly_tryComposeCachedIdList ..)) fun composed => ?_
          cases composed with
          | none => exact .ret _
          | some composed => exact .bind (stilly_readable _) fun _ => .ret _

theorem stilly_planPages (requests : List ArxivRequest) : Stilly (planPages requests) := by
  induction requests with
  | nil => exact .ret _
  | cons request rest ih => exact .bind (stilly_readable _) fun _ => .bind ih fun _ => .ret _

theorem stilly_createTargets (mode : LegacySyncMode) (budget : MaintenanceBudget)
    (plan : List PlannedRequest) : Stilly (createTargets mode budget plan) := by
  induction plan with
  | nil => exact .ret _
  | cons planned rest ih =>
      exact .bind (.bind stilly_now fun _ => .call trivial) fun _ =>
        .bind (stilly_recordSyncJobPage _) fun _ => .bind ih fun _ => .ret _

theorem stilly_initialBudgetFailure (target : MaintenanceTarget) (category message : String) :
    Stilly (completeInitialMaintenanceBudgetFailure target category message) :=
  .bind (stilly_completeSyncJob _) fun _ => .ret _

theorem stilly_completeFirstPage (target : MaintenanceTarget) (first : CacheEntry)
    (status : SyncStatus) (coverageStatus : CoverageStatus) (category message : String) :
    Stilly (completeFirstPage target first status coverageStatus category message) :=
  .bind (stilly_completeSyncJob _) fun _ => .ret _

theorem stilly_failActiveItems (budgetId : Uuid) (category message : String) :
    Stilly (embed (failActiveUpstreamBudgetItems budgetId category message)) :=
  stilly_embed (quietly_failActiveUpstreamBudgetItems ..)

theorem stilly_followupDeadlineFailure (target : MaintenanceTarget) (first : CacheEntry)
    (budget : MaintenanceBudget) :
    Stilly (completeFollowupDeadlineBudgetFailure target first budget) :=
  .bind (stilly_failActiveItems ..) fun _ => .bind (.call trivial) fun _ =>
    stilly_completeFirstPage ..

theorem stilly_completeUnfetchedWindow (target : MaintenanceTarget) :
    Stilly (completeUnfetchedWindow target) :=
  .bind (stilly_getCacheEntry _) fun _ => .bind (stilly_getTargetItem target) fun _ =>
    .bind (stilly_completeSyncJob _) fun _ => .ret _

theorem stilly_finalizeCompleteWindow (target : MaintenanceTarget)
    (pages : List MaintenanceTarget) : Stilly (finalizeCompleteWindowTarget target pages) := by
  have hpages : ∀ (syncJobId : Uuid) (pages : List MaintenanceTarget) (sums : PageSums),
      Stilly (addPages syncJobId pages sums) := by
    intro syncJobId pages
    induction pages with
    | nil => exact fun sums => .ret _
    | cons page rest ih =>
        intro sums
        refine .bind ?_ fun sums => ih sums
        refine .bind (stilly_refreshSyncJobPage ..) fun pageError =>
          .bind (stilly_readable _) fun readable => ?_
        cases readable with
        | some readable => exact .bind (stilly_embed (.call trivial)) fun _ => .ret _
        | none =>
            dsimp only
            split
            · exact .bind (stilly_getCacheEntry _) fun _ => .ret _
            · exact .ret _
  exact .bind (hpages ..) fun sums => .bind (stilly_completeSyncJob _) fun _ => .ret _

theorem stilly_readTarget (target : MaintenanceTarget) : Stilly (readTarget d target) := by
  refine .bind (stilly_readable _) fun readable => .bind (stilly_getCacheEntry _) fun entry =>
    .bind (stilly_getTargetItem target) fun item => ?_
  cases readable with
  | none => exact .ret _
  | some readable =>
      exact .bind (stilly_embed (quietly_resultFromCompletedCache ..)) fun _ => .ret _

/-! ## The passes -/

/-- What a pass counts in the result is what its status stands for. -/
theorem upstreamRequestsTotal_countInline (result : MaintenanceResult) (worker : WorkerPassResult) :
    (countInlineWorkerResult result worker).upstreamRequestsTotal =
      result.upstreamRequestsTotal + charge worker.status := by
  unfold countInlineWorkerResult charge
  dsimp only
  split
  · split <;> rfl
  · split <;> rfl

theorem reports_runOnce (w : WorkerConfig) (targets : Option (List CacheKey)) (n : Nat) :
    Reports d n (fun worker => n + charge worker.status) (embed (Worker.runOnce w targets)) :=
  accounted_embed (tallied_runOnce rfl targets)

theorem reports_drainRounds (targets : List MaintenanceTarget) (timeout deadline : Timeout)
    (rounds : Nat) : ∀ result : MaintenanceResult,
      Reports d result.upstreamRequestsTotal (·.upstreamRequestsTotal)
        (drainRounds d targets timeout deadline rounds result) := by
  induction rounds with
  | zero => exact fun result => trivial
  | succ rounds ih =>
      intro result
      refine .bind_still stilly_now fun now => ?_
      split
      · refine .bind_still (stilly_allTerminal targets) fun terminal => ?_
        split
        · rfl
        · refine .bind_still (stilly_embed (.call trivial)) fun uuid =>
            (reports_runOnce ..).bind fun worker => ?_
          rw [← upstreamRequestsTotal_countInline]
          dsimp only
          split
          · exact .bind_still (stilly_embed (Worker.quietly_timeSleep _)) fun _ => ih _
          · exact ih _
      · rfl

theorem reports_drainTargetsUntilDeadline (targets : List MaintenanceTarget)
    (result : MaintenanceResult) (budget : MaintenanceBudget) (timeout : Int) (rounds : Nat) :
    Reports d result.upstreamRequestsTotal (·.2.upstreamRequestsTotal)
      (drainTargetsUntilDeadline d targets result budget timeout rounds) := by
  unfold drainTargetsUntilDeadline
  split
  · rfl
  · refine (reports_drainRounds targets timeout _ rounds result).bind fun result =>
      .bind_still stilly_now fun now => ?_
    split
    · exact .bind_still (stilly_expireTargets ..) fun _ =>
        .bind_still (stilly_failActiveItems ..) fun _ => rfl
    · rfl

/-! ## The call -/

theorem reports_enqueueTargets (mode : LegacySyncMode) (budget : MaintenanceBudget)
    (cached : CacheKey → Option CacheEntry) (targets : List MaintenanceTarget) :
    ∀ result : MaintenanceResult,
      Reports d result.upstreamRequestsTotal (·.2.upstreamRequestsTotal)
        (enqueueTargets d mode budget cached targets result) := by
  induction targets with
  | nil => exact fun result => rfl
  | cons target rest ih =>
      intro result
      have hmissing : Reports d result.upstreamRequestsTotal (·.2.upstreamRequestsTotal)
          (enqueueTarget d mode budget target result) := by
        refine .bind_still (stilly_deadlinePassed ..) fun late => ?_
        split
        · exact .bind_still (stilly_failActiveItems ..) fun _ =>
            .bind_still (stilly_initialBudgetFailure ..) fun _ => rfl
        · exact .bind_still (stilly_embed (quietly_enqueueRequestForWork ..)) fun _ =>
            .bind_still (stilly_recordSyncJobPage _) fun _ => rfl
      unfold enqueueTargets
      split
      · exact .bind_still (stilly_refreshSyncJobPage ..) fun _ => .ret_bind <|
          (ih { result with cacheHitTotal := result.cacheHitTotal + 1 }).bind fun _ => rfl
      · refine hmissing.bind ?_
        rintro ⟨target, result⟩
        exact (ih result).bind fun _ => rfl

theorem reports_enqueuePage (target : MaintenanceTarget) (budget : MaintenanceBudget)
    (page : PlannedRequest) (result : MaintenanceResult) :
    Reports d result.upstreamRequestsTotal (·.2.upstreamRequestsTotal)
      (enqueuePage d target budget page result) := by
  unfold enqueuePage
  dsimp only
  split
  all_goals
    refine .bind_still (by first | exact stilly_deadlinePassed .. | exact .ret _) fun late => ?_
    split
    · rfl
    · refine .bind_still (stilly_recordSyncJobPage _) fun _ => ?_
      split
      · rfl
      · refine .bind_still (stilly_deadlinePassed ..) fun late => ?_
        split
        · rfl
        · refine .bind_still (stilly_embed (quietly_enqueueRequestForWork ..)) fun queued =>
            .bind_still (stilly_deadlinePassed ..) fun late => ?_
          -- Whether the item was joined or is new, no pass is counted.
          have hsame : (if queued.2 = true then result else
              { result with queuedTotal := result.queuedTotal + 1 }).upstreamRequestsTotal =
                result.upstreamRequestsTotal := by
            split <;> rfl
          generalize (if queued.2 = true then result else
            { result with queuedTotal := result.queuedTotal + 1 }) = result' at hsame ⊢
          rw [← hsame]
          split <;> rfl

theorem reports_enqueuePages (target : MaintenanceTarget) (budget : MaintenanceBudget)
    (plan : List PlannedRequest) : ∀ result : MaintenanceResult,
      Reports d result.upstreamRequestsTotal (·.2.upstreamRequestsTotal)
        (enqueuePages d target budget plan result) := by
  induction plan with
  | nil => exact fun result => rfl
  | cons page rest ih =>
      intro result
      refine (reports_enqueuePage target budget page result).bind ?_
      rintro ⟨pageTarget, result⟩
      cases pageTarget with
      | none => rfl
      | some pageTarget => exact (ih result).bind fun _ => rfl

theorem reports_drainPages (target : MaintenanceTarget) (first : CacheEntry)
    (plan : List PlannedRequest) (budget : MaintenanceBudget) (timeout : Int) (rounds : Nat)
    (result : MaintenanceResult) :
    Reports d result.upstreamRequestsTotal (·.2.upstreamRequestsTotal)
      (drainPages d target first plan budget timeout rounds result) := by
  refine (reports_enqueuePages target budget plan result).bind ?_
  rintro ⟨pages, result⟩
  cases pages with
  | none => exact .bind_still (stilly_followupDeadlineFailure ..) fun _ => rfl
  | some pages =>
      exact (reports_drainTargetsUntilDeadline ..).bind fun _ =>
        .bind_still (stilly_finalizeCompleteWindow ..) fun _ => rfl

theorem reports_admitPages (target : MaintenanceTarget) (first : CacheEntry) (totalResults : Nat)
    (budget : MaintenanceBudget) (timeout : Int) (rounds : Nat) (result : MaintenanceResult) :
    Reports d result.upstreamRequestsTotal (·.2.1.upstreamRequestsTotal)
      (admitPages d target first totalResults budget timeout rounds result) := by
  have hrefused : ∀ (target : MaintenanceTarget) (category message : String)
      (budget : MaintenanceBudget),
      Reports d result.upstreamRequestsTotal (·.2.1.upstreamRequestsTotal) (do
        let target ← completeWindowBudgetFailure target first category message
        pure (target, result, budget)) := fun _ _ _ _ =>
    .bind_still (stilly_completeFirstPage ..) fun _ => rfl
  unfold admitPages
  dsimp only
  split
  · exact hrefused ..
  · refine .bind_still (stilly_planPages _) fun plan =>
      .bind_still (.call trivial) fun requestsStarted => ?_
    cases requestsStarted with
    | none => exact hrefused ..
    | some requestsStarted =>
        dsimp only
        split
        · exact hrefused ..
        · split
          all_goals
            refine .bind_still
              (by first | exact stilly_deadlineCanFitRequests .. | exact .ret _) fun fits => ?_
            split
            · exact hrefused ..
            · exact (reports_drainPages ..).bind fun _ => rfl

theorem reports_planAndDrain (target : MaintenanceTarget) (budget : MaintenanceBudget)
    (timeout : Int) (rounds : Nat) (result : MaintenanceResult) :
    Reports d result.upstreamRequestsTotal (·.2.1.upstreamRequestsTotal)
      (planAndDrainCompleteWindowTarget d target budget timeout rounds result) := by
  unfold planAndDrainCompleteWindowTarget
  split
  · split
    · exact .bind_still (stilly_initialBudgetFailure ..) fun _ => rfl
    · rfl
  · refine .bind_still (stilly_readable _) fun first =>
      .bind_still (stilly_refreshSyncJobPage ..) fun _ => ?_
    cases first with
    | none => exact .bind_still (stilly_completeUnfetchedWindow target) fun _ => rfl
    | some first =>
        dsimp only
        split
        · exact .bind_still (.bind (stilly_completeSyncJob _) fun _ => .ret _) fun _ => rfl
        · split
          · exact .bind_still (stilly_completeFirstPage ..) fun _ => rfl
          · split
            · exact .bind_still (stilly_completeFirstPage ..) fun _ => rfl
            · exact reports_admitPages ..

theorem reports_planAndDrainTargets (timeout : Int) (rounds : Nat)
    (targets : List MaintenanceTarget) :
    ∀ (result : MaintenanceResult) (budget : MaintenanceBudget),
      Reports d result.upstreamRequestsTotal (·.2.upstreamRequestsTotal)
        (planAndDrainTargets d timeout rounds targets result budget) := by
  induction targets with
  | nil => exact fun result budget => rfl
  | cons target rest ih =>
      intro result budget
      refine (reports_planAndDrain target budget timeout rounds result).bind ?_
      rintro ⟨target, result, budget⟩
      exact (ih result budget).bind fun _ => rfl

theorem reports_drain (call : SyncWindowsCall) (rounds : Nat) (budget : MaintenanceBudget)
    (timeout : Int) (targets : List MaintenanceTarget) (result : MaintenanceResult) :
    Reports d result.upstreamRequestsTotal (·.2.upstreamRequestsTotal)
      (drain d call rounds budget timeout targets result) := by
  unfold drain
  split
  · rfl
  · split
    · refine (reports_drainTargetsUntilDeadline ..).bind ?_
      rintro ⟨targets, result⟩
      exact reports_planAndDrainTargets ..
    · have hdrain : Reports d result.upstreamRequestsTotal (·.upstreamRequestsTotal)
          (drainMaintenanceTargets d targets result call.waitTimeoutSeconds rounds) :=
        .bind_still stilly_now fun _ => reports_drainRounds ..
      exact hdrain.bind fun _ => rfl

theorem reports_finalizeTarget (mode : LegacySyncMode) (completePendingJobs : Bool)
    (target : MaintenanceTarget) (result : MaintenanceResult) :
    Reports d result.upstreamRequestsTotal (·.upstreamRequestsTotal)
      (finalizeTarget d mode completePendingJobs target result) := by
  have hsettle : ∀ reading, Reports d result.upstreamRequestsTotal (·.2.2.upstreamRequestsTotal)
      (settleStatus mode target reading result) := by
    intro reading
    unfold settleStatus
    split
    · cases target.coverageStatus <;> rfl
    · split
      all_goals
        dsimp only
        split
        · exact .bind_still (stilly_refreshSyncJobPage ..) fun _ => rfl
        · rfl
  have hcooldown : ∀ reading (result : MaintenanceResult),
      Reports d result.upstreamRequestsTotal (·.upstreamRequestsTotal)
        (countCooldown reading result) := by
    intro reading result
    unfold countCooldown
    dsimp only
    split
    · exact .bind_still stilly_now fun _ => rfl
    · split
      · split
        · rfl
        · exact .bind_still stilly_now fun _ => rfl
      · rfl
    · rfl
  refine .bind_still (stilly_readTarget target) fun reading => (hsettle reading).bind ?_
  rintro ⟨rawStatus, target, result⟩
  have hunreadable : (if reading.readable.isNone = true then countUnreadable rawStatus result
      else result).upstreamRequestsTotal = result.upstreamRequestsTotal := by
    unfold countUnreadable
    split
    · split <;> rfl
    · rfl
  dsimp only
  generalize (if reading.readable.isNone = true then countUnreadable rawStatus result
    else result) = result' at hunreadable ⊢
  rw [← hunreadable]
  refine (hcooldown reading result').bind fun result => ?_
  have hexhausted : (if budgetExhausted (requestErrors target reading).2.1 = true then
      { result with budgetExhaustedWindowsTotal := result.budgetExhaustedWindowsTotal + 1 }
      else result).upstreamRequestsTotal = result.upstreamRequestsTotal := by
    split <;> rfl
  generalize (if budgetExhausted (requestErrors target reading).2.1 = true then
    { result with budgetExhaustedWindowsTotal := result.budgetExhaustedWindowsTotal + 1 }
    else result) = result'' at hexhausted ⊢
  rw [← hexhausted]
  split
  · exact .bind_still (stilly_completeSyncJob _) fun _ => rfl
  · rfl

theorem reports_finalize (mode : LegacySyncMode) (completePendingJobs : Bool)
    (targets : List MaintenanceTarget) : ∀ result : MaintenanceResult,
      Reports d result.upstreamRequestsTotal (·.upstreamRequestsTotal)
        (finalizeMaintenanceResult d mode completePendingJobs targets result) := by
  induction targets with
  | nil => exact fun result => rfl
  | cons target rest ih =>
      exact fun result => (reports_finalizeTarget ..).bind fun result => ih result

theorem reports_syncPlanned (call : SyncWindowsCall) (rounds : Nat) (plan : List PlannedRequest)
    (timeout deadline deadlineAt : Int) :
    Reports d 0 (·.2.upstreamRequestsTotal)
      (syncPlanned d call rounds plan timeout deadline deadlineAt) := by
  refine .bind_still (stilly_embed (quietly_createUpstreamRequestBudget ..)) fun budgetId =>
    .bind_still (stilly_createTargets ..) fun targets => ?_
  refine (reports_enqueueTargets call.mode _ (initialCache plan) targets
    { requestedTotal := targets.length }).bind ?_
  rintro ⟨targets, result⟩
  exact reports_drain ..

theorem reports_windowsDrained (call : SyncWindowsCall) (rounds : Nat) :
    Reports d 0 (·.2.upstreamRequestsTotal) (windowsDrained d call rounds) := by
  unfold windowsDrained
  split
  · trivial
  · split
    · trivial
    · split
      · rfl
      · refine .bind_still (stilly_planRequests _) fun plan => ?_
        dsimp only
        split
        · trivial
        · refine .bind_still stilly_now fun now => .bind_still stilly_now fun now => ?_
          split
          · trivial
          · split
            all_goals
              refine .bind_still
                (by first | exact stilly_deadlineCanFitRequests .. | exact .ret _) fun fits => ?_
              split
              · trivial
              · exact reports_syncPlanned ..

/-- The call reports the fetches it has made itself. -/
theorem reports_syncWindows (call : SyncWindowsCall) (rounds : Nat) :
    Reports d 0 (·.upstreamRequestsTotal) (syncWindows d call rounds) := by
  refine (reports_windowsDrained call rounds).bind ?_
  rintro ⟨targets, result⟩
  exact reports_finalize ..

end Pieces

end Inline

end Accounts
end Huldra
