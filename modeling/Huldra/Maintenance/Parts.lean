import Huldra.ArchiveClients
import Huldra.Parts

/-!
# Parts — the maintenance calls as put together from operations and limiter calls

The same for the programs over the archive.  From the opening of its budget on, a maintenance call
queues work for that budget only, and opens no other.
-/

namespace Huldra

open Process (Prog Made)

/-! ## Programs over the store, on the archive -/

theorem embed_handle {β γ : Type} (p : Program β) (f : β → Program γ) (g : Exn → Program γ) :
    embed (p.handle f g) = (embed p).handle (fun b => embed (f b)) fun e => embed (g e) := by
  induction p with
  | ret b => rfl
  | raise e => rfl
  | op o k ih =>
      simp only [Prog.handle_op, embed]
      congr 1
      funext r
      exact ih r

theorem returns_embed {β : Type} {S : β → Prop} {p : Program β} (h : p.Returns S) :
    (embed p).Returns S := by
  induction p with
  | ret b => exact h
  | raise e => trivial
  | op o k ih => exact fun r => ih r (h r)

theorem allOps_embed {β : Type} {P : ArchiveOp → Prop} {p : Program β}
    (h : p.AllOps fun o => P (.store o)) : (embed p).AllOps P := by
  induction p with
  | ret b => trivial
  | raise e => trivial
  | op o k ih => exact ⟨h.1, fun r => ih r (h.2 r)⟩

/-- The transactions on the job tables that concern no budget but these; whoever may open budgets
may also collect them. -/
def JobOp.Funded (funds : Option Uuid → Prop) (opens : Prop) : JobOp → Prop
  | .getUpstreamRequestBudgetRequestsStarted budgetId => funds (some budgetId)
  | .gc .. => opens
  | _ => True

inductive ArchivePart (d : Deployment) (funds : Option Uuid → Prop) (opens : Prop) :
    ∀ β : Type, ArchiveProgram β → Prop where
  | store {β : Type} {p : Program β} : Part d funds opens β p →
      ArchivePart d funds opens β (embed p)
  | job {o : JobOp} : o.Funded funds opens → ArchivePart d funds opens o.Res (performJob o)

section Parts

variable {d : Deployment} {funds : Option Uuid → Prop} {opens : Prop}

abbrev ArchiveMadeOf (d : Deployment) (funds : Option Uuid → Prop) (opens : Prop) {β : Type}
    (p : ArchiveProgram β) : Prop :=
  Made (ArchivePart d funds opens) p

theorem made_embed {β : Type} {p : Program β} (h : MadeOf d funds opens p) :
    ArchiveMadeOf d funds opens (embed p) := by
  induction h with
  | part hp => exact .part (.store hp)
  | ret b => exact .ret b
  | raise e => exact .raise _
  | handleOf _ hS _ _ ihp ihf ihg =>
      rw [embed_handle]
      exact .handleOf ihp (returns_embed hS) ihf ihg

theorem made_job {o : JobOp} (h : o.Funded funds opens) :
    ArchiveMadeOf d funds opens (performJob o) :=
  .part (.job h)

/-- The wider the funds, the more programs. -/
theorem ArchivePart.mono {funds' : Option Uuid → Prop} {opens' : Prop}
    (hfunds : ∀ b, funds b → funds' b) (hopens : opens → opens') {β : Type} {p : ArchiveProgram β}
    (h : ArchivePart d funds opens β p) :
    ArchivePart d funds' opens' β p := by
  cases h with
  | store hp =>
      refine .store ?_
      cases hp with
      | @op o ho =>
          refine .op ?_
          unfold Ordinary at ho ⊢
          split at ho
          · exact ho
          · exact hopens ho
          · exact hfunds _ ho
          all_goals exact ho
      | beforeRequest owner => exact .beforeRequest owner
      | afterSuccess owner status => exact .afterSuccess owner status
      | afterRateLimit owner retryAfter statusCode message =>
          exact .afterRateLimit owner retryAfter statusCode message
      | afterFailure owner status message => exact .afterFailure owner status message
  | @job o ho =>
      refine .job ?_
      cases o with
      | getUpstreamRequestBudgetRequestsStarted budgetId => exact hfunds _ ho
      | gc cutoff dryRun => exact hopens ho
      | _ => trivial

/-! ## The steps of a call -/

namespace Maintenance

theorem made_now : ArchiveMadeOf d funds opens (embed utcNow) :=
  made_embed made_utcNow

theorem made_readable (cacheKey : CacheKey) :
    ArchiveMadeOf d funds opens (embed (getReadableCompletedCache cacheKey)) :=
  made_embed (made_getReadableCompletedCache _)

theorem made_recordSyncJobPage (write : SyncJobPageWrite) :
    ArchiveMadeOf d funds opens (recordSyncJobPage write) :=
  .bind made_now fun _ => made_job trivial

theorem made_completeSyncJob (completion : SyncJobCompletion) :
    ArchiveMadeOf d funds opens (completeSyncJob completion) :=
  .bind made_now fun _ => made_job trivial

theorem made_refreshSyncJobPage (syncJobId : Uuid) (request : ArxivRequest) (cacheKey : CacheKey) :
    ArchiveMadeOf d funds opens (refreshSyncJobPageFromCache syncJobId request cacheKey) :=
  .bind (made_embed (made_op trivial)) fun _ => .bind (made_recordSyncJobPage _) fun _ => .ret _

theorem made_getTargetItem (target : MaintenanceTarget) :
    ArchiveMadeOf d funds opens (getTargetItem target) := by
  unfold getTargetItem
  split
  · exact made_embed (made_op trivial)
  · exact .ret _

theorem made_deadlineCanFitRequests (deadline : Int) (requestsTotal : Nat) :
    ArchiveMadeOf d funds opens (deadlineCanFitRequests d deadline requestsTotal) :=
  .bind made_now fun _ => .bind (made_embed (made_op trivial)) fun _ => .bind made_now fun _ =>
    .ret _

theorem made_allTerminal (targets : List MaintenanceTarget) :
    (∀ target, ArchiveMadeOf d funds opens (targetTerminal target)) ∧
      ArchiveMadeOf d funds opens (allTerminal targets) := by
  have hterminal : ∀ target, ArchiveMadeOf d funds opens (targetTerminal target) := by
    intro target
    refine .bind (made_readable _) fun readable => ?_
    split
    · exact .ret _
    · refine .bind (made_embed (made_op trivial)) fun entry =>
        .bind (made_getTargetItem target) fun item => ?_
      cases item with
      | none => exact .ret _
      | some item =>
          dsimp only
          split
          · exact .ret _
          · split
            · exact .ret _
            · split
              · exact .ret _
              · refine .bind made_now fun now => ?_
                split
                · exact .ret _
                · exact .ret _
  refine ⟨hterminal, ?_⟩
  induction targets with
  | nil => exact .ret _
  | cons target rest ih =>
      refine .bind (hterminal target) fun terminal => ?_
      split
      · exact ih
      · exact .ret _

theorem made_drainRounds (targets : List MaintenanceTarget) (timeout deadline : Timeout)
    (rounds : Nat) : ∀ result : MaintenanceResult,
      ArchiveMadeOf d funds opens (drainRounds d targets timeout deadline rounds result) := by
  induction rounds with
  | zero => exact fun result => .raise _
  | succ rounds ih =>
      intro result
      refine .bind made_now fun now => ?_
      split
      · refine .bind (made_allTerminal targets).2 fun terminal => ?_
        split
        · exact .ret _
        · refine .bind (made_embed made_uuid4) fun uuid =>
            .bind (made_embed (made_runOnce _ rfl)) fun worker => ?_
          dsimp only
          split
          · exact .bind (made_embed (made_timeSleep _)) fun _ => ih _
          · exact ih _
      · exact .ret _

theorem made_drainTargetsUntilDeadline (targets : List MaintenanceTarget)
    (result : MaintenanceResult) (budget : MaintenanceBudget) (timeout : Int) (rounds : Nat) :
    ArchiveMadeOf d funds opens
      (drainTargetsUntilDeadline d targets result budget timeout rounds) := by
  have hexpire : ∀ (message : String) (targets : List MaintenanceTarget),
      ArchiveMadeOf d funds opens (expireTargets message targets) := by
    intro message targets
    induction targets with
    | nil => exact .ret _
    | cons target rest ih =>
        refine .bind ((made_allTerminal []).1 target) fun terminal => .bind ih fun others => ?_
        split
        · exact .ret _
        · exact .ret _
  unfold drainTargetsUntilDeadline
  split
  · exact .ret _
  · refine .bind (made_drainRounds targets timeout _ rounds result) fun result =>
      .bind made_now fun now => ?_
    split
    · exact .bind (hexpire _ targets) fun _ =>
        .bind (made_embed (made_failActiveUpstreamBudgetItems ..)) fun _ => .ret _
    · exact .ret _

theorem made_deadlinePassed (mode : LegacySyncMode) (budget : MaintenanceBudget) :
    ArchiveMadeOf d funds opens (deadlinePassed mode budget) := by
  unfold deadlinePassed
  split
  · exact .ret _
  · exact .bind made_now fun _ => .ret _

theorem made_planRequests (requests : List ArxivRequest) :
    ArchiveMadeOf d funds opens (planRequests d requests) := by
  induction requests with
  | nil => exact .ret _
  | cons request rest ih =>
      refine .bind ?_ fun planned => .bind ih fun others => .ret _
      refine .bind (made_readable _) fun readable => ?_
      cases readable with
      | some readable => exact .ret _
      | none =>
          refine .bind (made_embed (made_tryComposeCachedIdList ..)) fun composed => ?_
          cases composed with
          | none => exact .ret _
          | some composed => exact .bind (made_readable _) fun _ => .ret _

theorem made_planPages (requests : List ArxivRequest) :
    ArchiveMadeOf d funds opens (planPages requests) := by
  induction requests with
  | nil => exact .ret _
  | cons request rest ih => exact .bind (made_readable _) fun _ => .bind ih fun _ => .ret _

theorem made_createTargets (mode : LegacySyncMode) (budget : MaintenanceBudget)
    (plan : List PlannedRequest) :
    ArchiveMadeOf d funds opens (createTargets mode budget plan) := by
  induction plan with
  | nil => exact .ret _
  | cons planned rest ih =>
      exact .bind (.bind made_now fun _ => made_job trivial) fun _ =>
        .bind (made_recordSyncJobPage _) fun _ => .bind ih fun _ => .ret _

theorem made_initialBudgetFailure (target : MaintenanceTarget) (category message : String) :
    ArchiveMadeOf d funds opens
      (completeInitialMaintenanceBudgetFailure target category message) :=
  .bind (made_completeSyncJob _) fun _ => .ret _

theorem made_enqueueTargets (mode : LegacySyncMode) {budget : MaintenanceBudget}
    (hfunds : funds (some budget.upstreamBudgetId)) (cached : CacheKey → Option CacheEntry)
    (targets : List MaintenanceTarget) : ∀ result : MaintenanceResult,
      ArchiveMadeOf d funds opens (enqueueTargets d mode budget cached targets result) := by
  induction targets with
  | nil => exact fun result => .ret _
  | cons target rest ih =>
      intro result
      have hmissing : ArchiveMadeOf d funds opens (enqueueTarget d mode budget target result) := by
        refine .bind (made_deadlinePassed ..) fun late => ?_
        split
        · exact .bind (made_embed (made_failActiveUpstreamBudgetItems ..)) fun _ =>
            .bind (made_initialBudgetFailure ..) fun _ => .ret _
        · exact .bind (made_embed (made_enqueueRequestForWork _ _ _ _ hfunds)) fun _ =>
            .bind (made_recordSyncJobPage _) fun _ => .ret _
      unfold enqueueTargets
      split
      · exact .bind (made_refreshSyncJobPage ..) fun _ => .bind (.ret _) fun _ =>
          .bind (ih _) fun _ => .ret _
      · exact .bind hmissing fun _ => .bind (ih _) fun _ => .ret _

/-! ## Complete windows -/

theorem made_completeFirstPage (target : MaintenanceTarget) (first : CacheEntry)
    (status : SyncStatus) (coverageStatus : CoverageStatus) (category message : String) :
    ArchiveMadeOf d funds opens
      (completeFirstPage target first status coverageStatus category message) :=
  .bind (made_completeSyncJob _) fun _ => .ret _

theorem made_enqueuePage (target : MaintenanceTarget) {budget : MaintenanceBudget}
    (hfunds : funds (some budget.upstreamBudgetId)) (page : PlannedRequest)
    (result : MaintenanceResult) :
    ArchiveMadeOf d funds opens (enqueuePage d target budget page result) := by
  unfold enqueuePage
  dsimp only
  split
  all_goals
    refine .bind (by first | exact made_deadlinePassed .. | exact .ret _) fun late => ?_
    split
    · exact .ret _
    · refine .bind (made_recordSyncJobPage _) fun _ => ?_
      split
      · exact .ret _
      · refine .bind (made_deadlinePassed ..) fun late => ?_
        split
        · exact .ret _
        · refine .bind (made_embed (made_enqueueRequestForWork _ _ _ _ hfunds)) fun queued =>
            .bind (made_deadlinePassed ..) fun late => ?_
          split <;> exact .ret _

theorem made_enqueuePages (target : MaintenanceTarget) {budget : MaintenanceBudget}
    (hfunds : funds (some budget.upstreamBudgetId)) (plan : List PlannedRequest) :
    ∀ result : MaintenanceResult,
      ArchiveMadeOf d funds opens (enqueuePages d target budget plan result) := by
  induction plan with
  | nil => exact fun result => .ret _
  | cons page rest ih =>
      intro result
      refine .bind (made_enqueuePage target hfunds page result) ?_
      rintro ⟨pageTarget, result⟩
      cases pageTarget with
      | none => exact .ret _
      | some pageTarget => exact .bind (ih result) fun _ => .ret _

theorem made_finalizeCompleteWindow (target : MaintenanceTarget) (pages : List MaintenanceTarget) :
    ArchiveMadeOf d funds opens (finalizeCompleteWindowTarget target pages) := by
  have hpages : ∀ (syncJobId : Uuid) (pages : List MaintenanceTarget) (sums : PageSums),
      ArchiveMadeOf d funds opens (addPages syncJobId pages sums) := by
    intro syncJobId pages
    induction pages with
    | nil => exact fun sums => .ret _
    | cons page rest ih =>
        intro sums
        refine .bind ?_ fun sums => ih sums
        refine .bind (made_refreshSyncJobPage ..) fun pageError =>
          .bind (made_readable _) fun readable => ?_
        cases readable with
        | some readable => exact .bind (made_embed (made_op trivial)) fun _ => .ret _
        | none =>
            dsimp only
            split
            · exact .bind (made_embed (made_op trivial)) fun _ => .ret _
            · exact .ret _
  exact .bind (hpages ..) fun sums => .bind (made_completeSyncJob _) fun _ => .ret _

theorem made_drainPages (target : MaintenanceTarget) (first : CacheEntry)
    (plan : List PlannedRequest) {budget : MaintenanceBudget}
    (hfunds : funds (some budget.upstreamBudgetId)) (timeout : Int) (rounds : Nat)
    (result : MaintenanceResult) :
    ArchiveMadeOf d funds opens (drainPages d target first plan budget timeout rounds result) := by
  refine .bind (made_enqueuePages target hfunds plan result) ?_
  rintro ⟨pages, result⟩
  cases pages with
  | none =>
      exact .bind (.bind (made_embed (made_failActiveUpstreamBudgetItems ..)) fun _ =>
        .bind (made_job trivial) fun _ => made_completeFirstPage ..) fun _ => .ret _
  | some pages =>
      exact .bind (made_drainTargetsUntilDeadline ..) fun _ =>
        .bind (made_finalizeCompleteWindow ..) fun _ => .ret _

theorem made_admitPages (target : MaintenanceTarget) (first : CacheEntry) (totalResults : Nat)
    {budget : MaintenanceBudget} (hfunds : funds (some budget.upstreamBudgetId)) (timeout : Int)
    (rounds : Nat) (result : MaintenanceResult) :
    ArchiveMadeOf d funds opens
      (admitPages d target first totalResults budget timeout rounds result) := by
  have hrefused : ∀ (target : MaintenanceTarget) (category message : String)
      (result : MaintenanceResult) (budget : MaintenanceBudget), ArchiveMadeOf d funds opens (do
        let target ← completeWindowBudgetFailure target first category message
        pure (target, result, budget)) := fun _ _ _ _ _ =>
    .bind (made_completeFirstPage ..) fun _ => .ret _
  unfold admitPages
  dsimp only
  split
  · exact hrefused ..
  · refine .bind (made_planPages _) fun plan => .bind (made_job hfunds) fun requestsStarted => ?_
    cases requestsStarted with
    | none => exact hrefused ..
    | some requestsStarted =>
        dsimp only
        split
        · exact hrefused ..
        · split
          all_goals
            refine .bind (by first | exact made_deadlineCanFitRequests .. | exact .ret _)
              fun fits => ?_
            split
            · exact hrefused ..
            · refine .bind ?_ fun _ => .ret _
              refine made_drainPages target first plan ?_ timeout rounds result
              exact hfunds

/-- The plan of a window spends from the budget that it is given, and hands that on. -/
theorem made_planAndDrain (target : MaintenanceTarget) {budget : MaintenanceBudget}
    (hfunds : funds (some budget.upstreamBudgetId)) (timeout : Int) (rounds : Nat)
    (result : MaintenanceResult) :
    ArchiveMadeOf d funds opens
      (planAndDrainCompleteWindowTarget d target budget timeout rounds result) := by
  unfold planAndDrainCompleteWindowTarget
  split
  · split
    · exact .bind (made_initialBudgetFailure ..) fun _ => .ret _
    · exact .ret _
  · refine .bind (made_readable _) fun first => .bind (made_refreshSyncJobPage ..) fun _ => ?_
    cases first with
    | none =>
        refine .bind ?_ fun _ => .ret _
        exact .bind (made_embed (made_op trivial)) fun entry =>
          .bind (made_getTargetItem target) fun item =>
            .bind (made_completeSyncJob _) fun _ => .ret _
    | some first =>
        dsimp only
        split
        · exact .bind (.bind (made_completeSyncJob _) fun _ => .ret _) fun _ => .ret _
        · split
          · exact .bind (made_completeFirstPage ..) fun _ => .ret _
          · split
            · exact .bind (made_completeFirstPage ..) fun _ => .ret _
            · exact made_admitPages _ first _ hfunds timeout rounds result

theorem returns_admitPages (target : MaintenanceTarget) (first : CacheEntry) (totalResults : Nat)
    (budget : MaintenanceBudget) (timeout : Int) (rounds : Nat) (result : MaintenanceResult) :
    (admitPages d target first totalResults budget timeout rounds result).Returns fun out =>
      out.2.2.upstreamBudgetId = budget.upstreamBudgetId := by
  have hrefused : ∀ (target : MaintenanceTarget) (category message : String)
      (budget' : MaintenanceBudget), budget'.upstreamBudgetId = budget.upstreamBudgetId →
      ((do
        let target ← completeWindowBudgetFailure target first category message
        pure (target, result, budget')) : ArchiveProgram _).Returns fun out =>
          out.2.2.upstreamBudgetId = budget.upstreamBudgetId := fun _ _ _ _ h => .bind fun _ => h
  unfold admitPages
  dsimp only
  split
  · exact hrefused _ _ _ _ rfl
  · refine .bind fun plan => .bind fun requestsStarted => ?_
    cases requestsStarted with
    | none => exact hrefused _ _ _ _ rfl
    | some requestsStarted =>
        dsimp only
        split
        · exact hrefused _ _ _ _ rfl
        · split
          all_goals
            refine .bind fun fits => ?_
            split
            · exact hrefused _ _ _ _ rfl
            · exact .bind fun _ => rfl

theorem returns_planAndDrain (target : MaintenanceTarget) (budget : MaintenanceBudget)
    (timeout : Int) (rounds : Nat) (result : MaintenanceResult) :
    (planAndDrainCompleteWindowTarget d target budget timeout rounds result).Returns fun out =>
      out.2.2.upstreamBudgetId = budget.upstreamBudgetId := by
  unfold planAndDrainCompleteWindowTarget
  split
  · split
    · exact .bind fun _ => rfl
    · rfl
  · refine .bind fun first => .bind fun _ => ?_
    cases first with
    | none => exact .bind fun _ => rfl
    | some first =>
        dsimp only
        split
        · exact .bind fun _ => rfl
        · split
          · exact .bind fun _ => rfl
          · split
            · exact .bind fun _ => rfl
            · exact returns_admitPages ..

theorem made_planAndDrainTargets (timeout : Int) (rounds : Nat) (targets : List MaintenanceTarget) :
    ∀ (result : MaintenanceResult) {budget : MaintenanceBudget},
      funds (some budget.upstreamBudgetId) →
      ArchiveMadeOf d funds opens (planAndDrainTargets d timeout rounds targets result budget) := by
  induction targets with
  | nil => exact fun result budget _ => .ret _
  | cons target rest ih =>
      intro result budget hfunds
      refine .bindOf (made_planAndDrain target hfunds timeout rounds result)
        (returns_planAndDrain target budget timeout rounds result) ?_
      rintro ⟨target, result, budget'⟩ hsame
      exact .bind (ih result (hsame ▸ hfunds)) fun _ => .ret _

/-! ## The whole call -/

theorem made_drain (call : SyncWindowsCall) (rounds : Nat) {budget : MaintenanceBudget}
    (hfunds : funds (some budget.upstreamBudgetId)) (timeout : Int)
    (targets : List MaintenanceTarget) (result : MaintenanceResult) :
    ArchiveMadeOf d funds opens (drain d call rounds budget timeout targets result) := by
  unfold drain
  split
  · exact .ret _
  · split
    · exact .bind (made_drainTargetsUntilDeadline ..) fun _ =>
        made_planAndDrainTargets timeout rounds _ _ hfunds
    · exact .bind (.bind made_now fun _ => made_drainRounds ..) fun _ => .ret _

theorem made_finalizeTarget (mode : LegacySyncMode) (completePendingJobs : Bool)
    (target : MaintenanceTarget) (result : MaintenanceResult) :
    ArchiveMadeOf d funds opens (finalizeTarget d mode completePendingJobs target result) := by
  have hread : ArchiveMadeOf d funds opens (readTarget d target) := by
    refine .bind (made_readable _) fun readable => .bind (made_embed (made_op trivial)) fun entry =>
      .bind (made_getTargetItem target) fun item => ?_
    cases readable with
    | none => exact .ret _
    | some readable =>
        exact .bind (made_embed (made_resultFromCompletedCache ..)) fun _ => .ret _
  have hsettle : ∀ reading, ArchiveMadeOf d funds opens
      (settleStatus mode target reading result) := by
    intro reading
    unfold settleStatus
    split
    · exact .ret _
    · split
      all_goals
        dsimp only
        split
        · exact .bind (made_refreshSyncJobPage ..) fun _ => .ret _
        · exact .ret _
  have hcooldown : ∀ reading result, ArchiveMadeOf d funds opens
      (countCooldown reading result) := by
    intro reading result
    unfold countCooldown
    dsimp only
    split
    · exact .bind made_now fun _ => .ret _
    · split
      · split
        · exact .ret _
        · exact .bind made_now fun _ => .ret _
      · exact .ret _
    · exact .ret _
  refine .bind hread fun reading => .bind (hsettle reading) ?_
  rintro ⟨rawStatus, target, result⟩
  refine .bind (hcooldown _ _) fun result => ?_
  dsimp only
  split
  · exact .bind (made_completeSyncJob _) fun _ => .ret _
  · exact .ret _

/-- From the opening of its budget on, the call spends from that budget. -/
theorem made_budgeted (call : SyncWindowsCall) (rounds : Nat) (plan : List PlannedRequest)
    {budget : MaintenanceBudget} (hfunds : funds (some budget.upstreamBudgetId)) (timeout : Int) :
    ArchiveMadeOf d funds opens (do
      let targets ← createTargets call.mode budget plan
      let (targets, result) ← enqueueTargets d call.mode budget (initialCache plan) targets
        { requestedTotal := targets.length }
      drain d call rounds budget timeout targets result) :=
  .bind (made_createTargets ..) fun _ => .bind (made_enqueueTargets _ hfunds ..)
    fun _ => made_drain call rounds hfunds ..

/-- The last pass over the windows. -/
theorem made_finalize (mode : LegacySyncMode) (completePendingJobs : Bool)
    (targets : List MaintenanceTarget) : ∀ result : MaintenanceResult,
      ArchiveMadeOf d funds opens
        (finalizeMaintenanceResult d mode completePendingJobs targets result) := by
  induction targets with
  | nil => exact fun result => .ret _
  | cons target rest ih =>
      exact fun result => .bind (made_finalizeTarget ..) fun result => ih result

/-- A call is turned down, or opens a budget and goes on as planned. -/
theorem made_syncWindows {A : ∀ β : Type, ArchiveProgram β → Prop}
    (hA : ∀ β p, ArchivePart d funds opens β p → A β p) (call : SyncWindowsCall) (rounds : Nat)
    (hplanned : ∀ (plan : List PlannedRequest) (timeout deadline deadlineAt : Int),
      Made A (syncPlanned d call rounds plan timeout deadline deadlineAt)) :
    Made A (syncWindows d call rounds) := by
  have hparts : ∀ {β : Type} {p : ArchiveProgram β}, ArchiveMadeOf d funds opens p → Made A p :=
    fun h => h.mono hA
  have hnow : Made A (embed utcNow) := hparts made_now
  refine .bind ?_ fun _ => hparts (made_finalize ..)
  unfold windowsDrained
  split
  · exact .raise _
  · split
    · exact .raise _
    · split
      · exact .ret _
      · refine .bind (hparts (made_planRequests _)) fun plan => ?_
        dsimp only
        split
        · exact .raise _
        · refine .bind hnow fun now => .bind hnow fun now => ?_
          split
          · exact .raise _
          · split
            all_goals
              refine .bind (by first | exact hparts (made_deadlineCanFitRequests ..) | exact .ret _)
                fun fits => ?_
              split
              · exact .raise _
              · exact hplanned ..

end Maintenance

/-! ## The clients -/

/-- Every client of the archive is put together from these parts. -/
theorem made_archiveProgram (c : ArchiveClient) (pid : Nat) :
    ArchiveMadeOf d (fun _ => True) True (c.program d pid) := by
  cases c with
  | store c => exact .bind (made_embed (made_program c pid)) fun _ => .ret _
  | ensure request => exact .bind (made_embed (made_ensure request trivial)) fun _ => .ret _
  | syncWindows call rounds =>
      refine .bind (Maintenance.made_syncWindows (fun _ _ h => h) call rounds ?_) fun _ => .ret _
      intro plan timeout deadline deadlineAt
      exact .bind (made_embed (made_createUpstreamRequestBudget _ _ trivial)) fun _ =>
        Maintenance.made_budgeted call rounds plan trivial timeout
  | gc cutoff dryRun => exact .bind (made_job trivial) fun _ => .ret _

end Parts

end Huldra
