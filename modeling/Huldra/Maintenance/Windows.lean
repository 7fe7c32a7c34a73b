import Huldra.Maintenance.Book

/-!
# Windows — the jobs of a call up to its last pass

Draining a queue opens no job and ends none.  In the mode `complete_window` every way through the
plan of a window ends its job; in the mode `slice` none is ended before the last pass.
-/

namespace Huldra

open Process (Prog)

namespace Maintenance

section Books

variable {book : JobBook}

/-! ## Quiet parts -/

theorem quiet_targetTerminal (target : MaintenanceTarget) :
    (targetTerminal target).AllOps Quiet := by
  unfold targetTerminal
  refine .bind (quiet_embed _) fun readable => ?_
  split
  · exact .ret _
  · refine .bind (quiet_embed _) fun entry => .bind (quiet_getTargetItem target) fun item => ?_
    split
    · exact .ret _
    · split
      · exact .ret _
      · split
        · exact .ret _
        · split
          · exact .ret _
          · refine .bind (quiet_embed _) fun now => ?_
            split <;> exact .ret _

theorem quiet_allTerminal (targets : List MaintenanceTarget) :
    (allTerminal targets).AllOps Quiet := by
  induction targets with
  | nil => exact .ret _
  | cons target rest ih =>
      refine .bind (quiet_targetTerminal target) fun terminal => ?_
      split
      · exact ih
      · exact .ret _

theorem quiet_drainRounds (d : Deployment) (targets : List MaintenanceTarget)
    (timeout deadline : Timeout) (rounds : Nat) : ∀ result : MaintenanceResult,
      (drainRounds d targets timeout deadline rounds result).AllOps Quiet := by
  induction rounds with
  | zero => exact fun result => .raise _
  | succ rounds ih =>
      intro result
      unfold drainRounds
      refine .bind (quiet_embed _) fun now => ?_
      split
      · refine .bind (quiet_allTerminal targets) fun terminal => ?_
        split
        · exact .ret _
        · refine .bind (quiet_embed _) fun uuid => .bind (quiet_embed _) fun worker => ?_
          dsimp only
          split
          · exact .bind (quiet_embed _) fun _ => ih _
          · exact .bind (.ret _) fun _ => ih _
      · exact .ret _

theorem quiet_expireTargets (errorMessage : String) (targets : List MaintenanceTarget) :
    (expireTargets errorMessage targets).AllOps Quiet := by
  induction targets with
  | nil => exact .ret _
  | cons target rest ih =>
      refine .bind (quiet_targetTerminal target) fun terminal => .bind ih fun others => ?_
      split <;> exact .ret _

theorem quiet_drainTargetsUntilDeadline (d : Deployment) (targets : List MaintenanceTarget)
    (result : MaintenanceResult) (budget : MaintenanceBudget) (timeout : Int) (rounds : Nat) :
    (drainTargetsUntilDeadline d targets result budget timeout rounds).AllOps Quiet := by
  unfold drainTargetsUntilDeadline
  split
  · exact .ret _
  · refine .bind (quiet_drainRounds d targets timeout _ rounds result) fun result =>
      .bind (quiet_embed _) fun now => ?_
    split
    · exact .bind (quiet_expireTargets _ targets) fun targets =>
        .bind (quiet_embed _) fun _ => .ret _
    · exact .ret _

theorem quiet_planRequests (d : Deployment) (requests : List ArxivRequest) :
    (planRequests d requests).AllOps Quiet := by
  induction requests with
  | nil => exact .ret _
  | cons request rest ih =>
      refine .bind ?_ fun planned => .bind ih fun others => .ret _
      unfold planRequest
      refine .bind (quiet_embed _) fun readable => ?_
      split
      · exact .ret _
      · refine .bind (quiet_embed _) fun composed => ?_
        split
        · exact .ret _
        · exact .bind (quiet_embed _) fun readable => .ret _

theorem quiet_deadlineCanFitRequests (d : Deployment) (deadline : Int) (requestsTotal : Nat) :
    (deadlineCanFitRequests d deadline requestsTotal).AllOps Quiet :=
  .bind (quiet_embed _) fun _ => .bind (quiet_embed _) fun _ =>
    .bind (quiet_embed _) fun _ => .ret _

theorem quiet_deadlinePassed (mode : LegacySyncMode) (budget : MaintenanceBudget) :
    (deadlinePassed mode budget).AllOps Quiet := by
  unfold deadlinePassed
  split
  · exact .ret _
  · exact .bind (quiet_embed _) fun _ => .ret _

theorem quiet_planPages (requests : List ArxivRequest) : (planPages requests).AllOps Quiet := by
  induction requests with
  | nil => exact .ret _
  | cons request rest ih => exact .bind (quiet_embed _) fun _ => .bind ih fun _ => .ret _

theorem quiet_enqueuePage (d : Deployment) (target : MaintenanceTarget)
    (budget : MaintenanceBudget) (page : PlannedRequest) (result : MaintenanceResult) :
    (enqueuePage d target budget page result).AllOps Quiet := by
  unfold enqueuePage
  dsimp only
  split
  all_goals
    refine .bind (by first | exact quiet_deadlinePassed .. | exact .ret _) fun late => ?_
    split
    · exact .ret _
    · refine .bind (quiet_recordSyncJobPage _) fun _ => ?_
      split
      -- The page is in the cache.
      · exact .ret _
      -- It has to be queued.
      · refine .bind (quiet_deadlinePassed ..) fun late => ?_
        split
        · exact .ret _
        · refine .bind (quiet_embed _) fun queued => .bind (quiet_deadlinePassed ..) fun late => ?_
          split <;> exact .ret _

theorem quiet_enqueuePages (d : Deployment) (target : MaintenanceTarget)
    (budget : MaintenanceBudget) (plan : List PlannedRequest) : ∀ result : MaintenanceResult,
      (enqueuePages d target budget plan result).AllOps Quiet := by
  induction plan with
  | nil => exact fun result => .ret _
  | cons page rest ih =>
      intro result
      refine .bind (quiet_enqueuePage d target budget page result) ?_
      rintro ⟨pageTarget, result⟩
      cases pageTarget with
      | none => exact .ret _
      | some pageTarget => exact .bind (ih result) fun _ => .ret _

theorem quiet_addPages (syncJobId : Uuid) (pages : List MaintenanceTarget) :
    ∀ sums : PageSums, (addPages syncJobId pages sums).AllOps Quiet := by
  induction pages with
  | nil => exact fun sums => .ret _
  | cons page rest ih =>
      intro sums
      refine .bind ?_ fun sums => ih sums
      unfold addPage
      refine .bind (quiet_refreshSyncJobPage ..) fun pageError =>
        .bind (quiet_embed _) fun readable => ?_
      split
      · exact .bind (quiet_embed _) fun papers => .ret _
      · split
        · exact .bind (quiet_embed _) fun entry => .ret _
        · exact .ret _


/-! ## What the targets keep -/

/-- The job of a target, and what is known of its coverage. -/
def stamp (target : MaintenanceTarget) : Uuid × CoverageStatus :=
  (target.syncJobId, target.coverageStatus)

theorem stamps_expireTargets (errorMessage : String) (targets : List MaintenanceTarget) :
    (expireTargets errorMessage targets).Returns fun out => out.map stamp = targets.map stamp := by
  induction targets with
  | nil => rfl
  | cons target rest ih =>
      refine .bind fun terminal => .bind_of ih fun others hothers => ?_
      split
      · exact congrArg (List.cons _) hothers
      · exact congrArg (List.cons _) hothers

theorem stamps_drainTargetsUntilDeadline (d : Deployment) (targets : List MaintenanceTarget)
    (result : MaintenanceResult) (budget : MaintenanceBudget) (timeout : Int) (rounds : Nat) :
    (drainTargetsUntilDeadline d targets result budget timeout rounds).Returns fun out =>
      out.1.map stamp = targets.map stamp := by
  unfold drainTargetsUntilDeadline
  split
  · rfl
  · refine .bind fun result => .bind fun now => ?_
    split
    · exact .bind_of (stamps_expireTargets _ targets) fun targets htargets =>
        .bind fun _ => htargets
    · rfl


/-! ## The jobs of complete windows -/

/-- The job of the target is ended, and no other. -/
def Finishes (book : JobBook) (target : MaintenanceTarget) (book' : JobBook)
    (target' : MaintenanceTarget) : Prop :=
  book' = book.close target.syncJobId ∧ target'.syncJobId = target.syncJobId

theorem finishes_initialBudgetFailure (target : MaintenanceTarget) (category message : String)
    (hmine : target.syncJobId ∈ book.created) :
    Leads (completeInitialMaintenanceBudgetFailure target category message) book
      fun book' target' => Finishes book target book' target' ∧
        target'.coverageStatus ≠ .unknown := by
  refine (leads_completeSyncJob hmine rfl).bind ?_
  rintro _ _ rfl
  exact Leads.ret ⟨⟨rfl, rfl⟩, nofun⟩

theorem finishes_completeFirstPage (target : MaintenanceTarget) (first : CacheEntry)
    {status : SyncStatus} (coverageStatus : CoverageStatus) (category message : String)
    (hmine : target.syncJobId ∈ book.created)
    (hstatus : (status.terminal || status.handoff) = true) :
    Leads (completeFirstPage target first status coverageStatus category message) book
      (Finishes book target) := by
  refine (leads_completeSyncJob hmine hstatus).bind ?_
  rintro _ _ rfl
  exact Leads.ret ⟨rfl, rfl⟩

theorem finishes_windowBudgetFailure (target : MaintenanceTarget) (first : CacheEntry)
    (category message : String) (hmine : target.syncJobId ∈ book.created) :
    Leads (completeWindowBudgetFailure target first category message) book
      (Finishes book target) :=
  finishes_completeFirstPage target first .partial_ category message hmine rfl

theorem finishes_followupDeadline (target : MaintenanceTarget) (first : CacheEntry)
    (budget : MaintenanceBudget) (hmine : target.syncJobId ∈ book.created) :
    Leads (completeFollowupDeadlineBudgetFailure target first budget) book
      (Finishes book target) :=
  Leads.bind_quiet (quiet_embed _) fun _ => Leads.bind_quiet (.call trivial) fun _ =>
    finishes_windowBudgetFailure target first _ _ hmine

theorem finishes_unfetchedWindow (target : MaintenanceTarget)
    (hmine : target.syncJobId ∈ book.created) :
    Leads (completeUnfetchedWindow target) book (Finishes book target) := by
  refine Leads.bind_quiet (quiet_embed _) fun entry =>
    Leads.bind_quiet (quiet_getTargetItem target) fun item => ?_
  refine (leads_completeSyncJob hmine rfl).bind ?_
  rintro _ _ rfl
  exact Leads.ret ⟨rfl, rfl⟩

theorem finishes_uncountedWindow (target : MaintenanceTarget) (first : CacheEntry)
    (hmine : target.syncJobId ∈ book.created) :
    Leads (completeUncountedWindow target first) book (Finishes book target) := by
  refine (leads_completeSyncJob hmine rfl).bind ?_
  rintro _ _ rfl
  exact Leads.ret ⟨rfl, rfl⟩

theorem finishes_finalizeCompleteWindow (target : MaintenanceTarget)
    (pages : List MaintenanceTarget) (hmine : target.syncJobId ∈ book.created) :
    Leads (finalizeCompleteWindowTarget target pages) book (Finishes book target) := by
  refine Leads.bind_quiet (quiet_addPages _ pages _) fun sums => ?_
  refine (leads_completeSyncJob hmine ?_).bind ?_
  · dsimp only
    split <;> rfl
  · rintro _ _ rfl
    exact Leads.ret ⟨rfl, rfl⟩

theorem finishes_drainPages (d : Deployment) (target : MaintenanceTarget) (first : CacheEntry)
    (plan : List PlannedRequest) (budget : MaintenanceBudget) (timeout : Int) (rounds : Nat)
    (result : MaintenanceResult) (hmine : target.syncJobId ∈ book.created) :
    Leads (drainPages d target first plan budget timeout rounds result) book
      fun book' out => Finishes book target book' out.1 := by
  refine Leads.bind_quiet (quiet_enqueuePages d target budget plan result) ?_
  rintro ⟨pages, result⟩
  dsimp only
  split
  · exact (finishes_followupDeadline target first budget hmine).bind fun _ _ h => h
  · exact Leads.bind_quiet (quiet_drainTargetsUntilDeadline ..) fun drained =>
      (finishes_finalizeCompleteWindow target _ hmine).bind fun _ _ h => h

theorem finishes_admitPages (d : Deployment) (target : MaintenanceTarget) (first : CacheEntry)
    (totalResults : Nat) (budget : MaintenanceBudget) (timeout : Int) (rounds : Nat)
    (result : MaintenanceResult) (hmine : target.syncJobId ∈ book.created) :
    Leads (admitPages d target first totalResults budget timeout rounds result) book
      fun book' out => Finishes book target book' out.1 := by
  unfold admitPages
  dsimp only
  split
  · exact (finishes_windowBudgetFailure target first _ _ hmine).bind fun _ _ h => h
  · refine Leads.bind_quiet (quiet_planPages _) fun plan =>
      Leads.bind_quiet (.call trivial) fun requestsStarted => ?_
    split
    · exact (finishes_windowBudgetFailure target first _ _ hmine).bind fun _ _ h => h
    · split
      · exact (finishes_windowBudgetFailure target first _ _ hmine).bind fun _ _ h => h
      · split
        all_goals
          refine Leads.bind_quiet
            (by first | exact quiet_deadlineCanFitRequests .. | exact .ret _) fun fits => ?_
          split
          · exact (finishes_windowBudgetFailure target first _ _ hmine).bind fun _ _ h => h
          · exact (finishes_drainPages d target first plan _ timeout rounds result hmine).bind
              fun _ _ h => h

/-- However the plan of a window goes, its job is ended when it is through. -/
theorem finishes_planAndDrain (d : Deployment) (target : MaintenanceTarget)
    (budget : MaintenanceBudget) (timeout : Int) (rounds : Nat) (result : MaintenanceResult)
    (hmine : target.syncJobId ∈ book.created)
    (hended : target.coverageStatus ≠ .unknown → target.syncJobId ∈ book.ended) :
    Leads (planAndDrainCompleteWindowTarget d target budget timeout rounds result) book
      fun book' out => (book' = book ∨ book' = book.close target.syncJobId) ∧
        out.1.syncJobId = target.syncJobId ∧ target.syncJobId ∈ book'.ended := by
  have hclosed : ∀ {p : ArchiveProgram (MaintenanceTarget × MaintenanceResult × MaintenanceBudget)},
      (Leads p book fun book' out => Finishes book target book' out.1) →
      Leads p book fun book' out => (book' = book ∨ book' = book.close target.syncJobId) ∧
        out.1.syncJobId = target.syncJobId ∧ target.syncJobId ∈ book'.ended := by
    intro p h
    refine h.mono ?_
    rintro _ out ⟨rfl, hid⟩
    exact ⟨Or.inr rfl, hid, List.mem_cons_self⟩
  unfold planAndDrainCompleteWindowTarget
  split
  · split
    · exact hclosed ((finishes_initialBudgetFailure target _ _ hmine).bind fun _ _ h => h.1)
    · rename_i hcoverage
      exact Leads.ret ⟨Or.inl rfl, rfl, hended hcoverage⟩
  · refine hclosed ?_
    refine Leads.bind_quiet (quiet_embed _) fun first =>
      Leads.bind_quiet (quiet_refreshSyncJobPage ..) fun _ => ?_
    split
    · exact (finishes_unfetchedWindow target hmine).bind fun _ _ h => h
    · rename_i first
      split
      · exact (finishes_uncountedWindow target first hmine).bind fun _ _ h => h
      · split
        · exact (finishes_completeFirstPage target first _ _ _ hmine rfl).bind fun _ _ h => h
        · split
          · exact (finishes_completeFirstPage target first _ _ _ hmine rfl).bind fun _ _ h => h
          · exact finishes_admitPages d { target with totalResults := _ } first _ budget timeout
              rounds result hmine


/-! ## The call up to its last pass -/

/-- No job is opened, and those that were ended stay so. -/
structure Onward (book book' : JobBook) : Prop where
  created : book'.created = book.created
  ended : book.ended ⊆ book'.ended

theorem Onward.refl (book : JobBook) : Onward book book :=
  ⟨rfl, List.Subset.refl _⟩

theorem Onward.close (book : JobBook) (syncJobId : Uuid) : Onward book (book.close syncJobId) :=
  ⟨rfl, List.subset_cons_self _ _⟩

theorem Onward.trans {book₁ book₂ book₃ : JobBook} (h : Onward book₁ book₂)
    (h' : Onward book₂ book₃) : Onward book₁ book₃ :=
  ⟨h'.created.trans h.created, List.Subset.trans h.ended h'.ended⟩

/-- Each target whose coverage is known has its job ended. -/
def Covered (book : JobBook) (targets : List MaintenanceTarget) : Prop :=
  ∀ target ∈ targets, target.coverageStatus ≠ .unknown → target.syncJobId ∈ book.ended

theorem leads_createTargets (mode : LegacySyncMode) (budget : MaintenanceBudget)
    (plan : List PlannedRequest) : ∀ book : JobBook,
      Leads (createTargets mode budget plan) book fun book' targets =>
        book' = { book with created := book.created ++ targets.map (·.syncJobId) } ∧
          ∀ target ∈ targets, target.coverageStatus = .unknown := by
  induction plan with
  | nil =>
      intro book
      refine Leads.ret ⟨by simp, ?_⟩
      intro target htarget
      cases htarget
  | cons planned rest ih =>
      intro book
      refine (leads_createSyncJob planned.request mode _).bind ?_
      rintro _ syncJobId rfl
      refine Leads.bind_quiet (quiet_recordSyncJobPage _) fun _ => (ih _).bind ?_
      rintro _ others ⟨rfl, hunknown⟩
      refine Leads.ret ⟨by simp, ?_⟩
      intro target htarget
      rcases List.mem_cons.1 htarget with rfl | htarget
      · rfl
      · exact hunknown target htarget

theorem leads_enqueueTarget (d : Deployment) (mode : LegacySyncMode) (budget : MaintenanceBudget)
    (target : MaintenanceTarget) (result : MaintenanceResult)
    (hmine : target.syncJobId ∈ book.created) :
    Leads (enqueueTarget d mode budget target result) book fun book' out =>
      out.1.syncJobId = target.syncJobId ∧
        ((book' = book ∧ out.1.coverageStatus = target.coverageStatus) ∨
          (mode = .completeWindow ∧ book' = book.close target.syncJobId)) := by
  have hqueue : ∀ result : MaintenanceResult, Leads
      (do
        let queued ← embed (enqueueRequestForWork
          { target.request with cachePolicy := .cacheOrEnqueue } target.cacheKey .fetchMissing
          (some budget.upstreamBudgetId) d.settings.requestTimeoutSeconds)
        recordSyncJobPage
          { syncJobId := target.syncJobId
            request := target.request
            cacheKey := target.cacheKey
            status := rawStatusFromQueueItem queued.1 }
        pure
          ({ target with
             requestId := some queued.1.requestId
             joinedExistingQueue := queued.2 },
            { result with queuedTotal := result.queuedTotal + 1 })) book
      fun book' out => out.1.syncJobId = target.syncJobId ∧
        ((book' = book ∧ out.1.coverageStatus = target.coverageStatus) ∨
          (mode = .completeWindow ∧ book' = book.close target.syncJobId)) := by
    intro result
    exact Leads.bind_quiet (quiet_embed _) fun queued =>
      Leads.bind_quiet (quiet_recordSyncJobPage _) fun _ => Leads.ret ⟨rfl, Or.inl ⟨rfl, rfl⟩⟩
  cases mode with
  | slice => exact hqueue _
  | completeWindow =>
      refine Leads.bind_quiet (quiet_deadlinePassed ..) fun late => ?_
      split
      · refine Leads.bind_quiet (quiet_embed _) fun _ =>
          (finishes_initialBudgetFailure target _ _ hmine).bind ?_
        rintro _ _ ⟨⟨rfl, hid⟩, _⟩
        exact Leads.ret ⟨hid, Or.inr ⟨rfl, rfl⟩⟩
      · exact hqueue _

theorem leads_enqueueTargets (d : Deployment) (mode : LegacySyncMode) (budget : MaintenanceBudget)
    (cached : CacheKey → Option CacheEntry) (targets : List MaintenanceTarget) :
    ∀ (book : JobBook) (result : MaintenanceResult),
      (∀ target ∈ targets, target.syncJobId ∈ book.created) → Covered book targets →
      Leads (enqueueTargets d mode budget cached targets result) book fun book' out =>
        out.1.map (·.syncJobId) = targets.map (·.syncJobId) ∧ Onward book book' ∧
          Covered book' out.1 ∧ (mode = .slice → book' = book) := by
  induction targets with
  | nil =>
      intro book result _ _
      refine Leads.ret ⟨rfl, .refl book, ?_, fun _ => rfl⟩
      intro target htarget
      cases htarget
  | cons target rest ih =>
      intro book result hmine hcovered
      have hrest : ∀ (book' : JobBook) (out : MaintenanceTarget × MaintenanceResult),
          out.1.syncJobId = target.syncJobId → Onward book book' →
          (out.1.coverageStatus ≠ .unknown → target.syncJobId ∈ book'.ended) →
          (mode = .slice → book' = book) →
          Leads
            (do
              let others ← enqueueTargets d mode budget cached rest out.2
              pure (out.1 :: others.1, others.2)) book' fun book' out =>
            out.1.map (·.syncJobId) = (target :: rest).map (·.syncJobId) ∧ Onward book book' ∧
              Covered book' out.1 ∧ (mode = .slice → book' = book) := by
        intro book' out hid honward hcover hslice
        refine (ih book' out.2 ?_ ?_).bind ?_
        · intro other hother
          rw [honward.created]
          exact hmine other (List.mem_cons_of_mem _ hother)
        · intro other hother hknown
          exact honward.ended (hcovered other (List.mem_cons_of_mem _ hother) hknown)
        · rintro book'' ⟨others, result⟩ ⟨hids, honward', hcovered', hslice'⟩
          refine Leads.ret ⟨?_, honward.trans honward', ?_, ?_⟩
          · simpa [hid] using hids
          · intro other hother hknown
            rcases List.mem_cons.1 hother with rfl | hother
            · rw [hid]
              exact honward'.ended (hcover hknown)
            · exact hcovered' other hother hknown
          · intro hmode
            rw [hslice' hmode, hslice hmode]
      have hhead := hcovered target List.mem_cons_self
      unfold enqueueTargets
      split
      · exact Leads.bind_quiet (quiet_refreshSyncJobPage ..) fun _ =>
          hrest book ({ target with initialCacheHit := true }, _) rfl (.refl book) hhead
            fun _ => rfl
      · refine (leads_enqueueTarget d mode budget target result
          (hmine target List.mem_cons_self)).bind ?_
        rintro book' out ⟨hid, ⟨rfl, hcoverage⟩ | ⟨hmode, rfl⟩⟩
        · refine hrest _ out hid (.refl _) ?_ fun _ => rfl
          rw [hcoverage]
          exact hhead
        · refine hrest _ out hid (.close book _) (fun _ => List.mem_cons_self) ?_
          intro hslice
          rw [hmode] at hslice
          cases hslice

theorem leads_planAndDrainTargets (d : Deployment) (timeout : Int) (rounds : Nat)
    (targets : List MaintenanceTarget) :
    ∀ (book : JobBook) (result : MaintenanceResult) (budget : MaintenanceBudget),
      (∀ target ∈ targets, target.syncJobId ∈ book.created) → Covered book targets →
      Leads (planAndDrainTargets d timeout rounds targets result budget) book fun book' out =>
        out.1.map (·.syncJobId) = targets.map (·.syncJobId) ∧ Onward book book' ∧
          ∀ target ∈ targets, target.syncJobId ∈ book'.ended := by
  induction targets with
  | nil =>
      intro book result budget _ _
      refine Leads.ret ⟨rfl, .refl book, ?_⟩
      intro target htarget
      cases htarget
  | cons target rest ih =>
      intro book result budget hmine hcovered
      refine (finishes_planAndDrain d target budget timeout rounds result
        (hmine target List.mem_cons_self) (hcovered target List.mem_cons_self)).bind ?_
      rintro book' ⟨target', result', budget'⟩ ⟨hbook, hid, hended⟩
      have honward : Onward book book' := by
        rcases hbook with rfl | rfl
        · exact .refl _
        · exact .close _ _
      refine (ih book' result' budget' ?_ ?_).bind ?_
      · intro other hother
        rw [honward.created]
        exact hmine other (List.mem_cons_of_mem _ hother)
      · intro other hother hknown
        exact honward.ended (hcovered other (List.mem_cons_of_mem _ hother) hknown)
      · rintro book'' ⟨others, result''⟩ ⟨hids, honward', hrest⟩
        have hid' : target'.syncJobId = target.syncJobId := hid
        refine Leads.ret ⟨?_, honward.trans honward', ?_⟩
        · simpa [hid'] using hids
        · intro other hother
          rcases List.mem_cons.1 hother with rfl | hother
          · exact honward'.ended hended
          · exact hrest other hother

/-- With the same stamps, the same jobs are meant and the same coverage is known. -/
theorem covered_of_stamps {targets targets' : List MaintenanceTarget}
    (h : targets'.map stamp = targets.map stamp) (hcovered : Covered book targets) :
    Covered book targets' := by
  intro target' htarget' hknown
  have hmem : stamp target' ∈ targets.map stamp := by
    rw [← h]
    exact List.mem_map_of_mem htarget'
  rcases List.mem_map.1 hmem with ⟨target, htarget, hstamp⟩
  have hid : target.syncJobId = target'.syncJobId := congrArg Prod.fst hstamp
  have hcoverage : target.coverageStatus = target'.coverageStatus := congrArg Prod.snd hstamp
  rw [← hid]
  exact hcovered target htarget (hcoverage ▸ hknown)

theorem ids_of_stamps {targets targets' : List MaintenanceTarget}
    (h : targets'.map stamp = targets.map stamp) :
    targets'.map (·.syncJobId) = targets.map (·.syncJobId) := by
  have := congrArg (List.map Prod.fst) h
  simpa [Function.comp_def, stamp] using this

theorem leads_drainCompleteWindow (d : Deployment) (targets : List MaintenanceTarget)
    (result : MaintenanceResult) (budget : MaintenanceBudget) (timeout : Int) (rounds : Nat)
    (hmine : ∀ target ∈ targets, target.syncJobId ∈ book.created)
    (hcovered : Covered book targets) :
    Leads (drainCompleteWindowTargets d targets result budget timeout rounds) book
      fun book' out => out.1.map (·.syncJobId) = targets.map (·.syncJobId) ∧ Onward book book' ∧
        ∀ target ∈ targets, target.syncJobId ∈ book'.ended := by
  have hdrained : Leads (drainTargetsUntilDeadline d targets result budget timeout rounds) book
      fun book' out => book' = book ∧ out.1.map stamp = targets.map stamp :=
    (stamps_drainTargetsUntilDeadline d targets result budget timeout rounds).wp book
      (Leads.quiet (quiet_drainTargetsUntilDeadline d targets result budget timeout rounds))
  refine hdrained.bind ?_
  rintro _ ⟨targets', result'⟩ ⟨rfl, hstamps⟩
  have hids := ids_of_stamps hstamps
  have hsame : ∀ target ∈ targets', target.syncJobId ∈ targets.map (·.syncJobId) := by
    intro target htarget
    rw [← hids]
    exact List.mem_map_of_mem htarget
  refine (leads_planAndDrainTargets d timeout rounds targets' _ result' budget ?_
    (covered_of_stamps hstamps hcovered)).mono ?_
  · intro target htarget
    rcases List.mem_map.1 (hsame target htarget) with ⟨other, hother, hid⟩
    rw [← hid]
    exact hmine other hother
  · rintro book' out ⟨hids', honward, hended⟩
    refine ⟨hids'.trans hids, honward, ?_⟩
    intro target htarget
    have hmem : target.syncJobId ∈ targets'.map (·.syncJobId) := by
      rw [hids]
      exact List.mem_map_of_mem htarget
    rcases List.mem_map.1 hmem with ⟨other, hother, hid⟩
    rw [← hid]
    exact hended other hother

theorem quiet_drainMaintenanceTargets (d : Deployment) (targets : List MaintenanceTarget)
    (result : MaintenanceResult) (waitTimeoutSeconds : Option Timeout) (rounds : Nat) :
    (drainMaintenanceTargets d targets result waitTimeoutSeconds rounds).AllOps Quiet :=
  .bind (quiet_embed _) fun _ => quiet_drainRounds ..

/-- The jobs are those of the targets; with complete windows they are all ended, and with slices
none is. -/
structure Drained (call : SyncWindowsCall) (book : JobBook) (targets : List MaintenanceTarget) :
    Prop where
  created : book.created = targets.map (·.syncJobId)
  slice : call.mode = .slice → book.ended = []
  completeWindow : call.mode = .completeWindow → ∀ id ∈ book.created, id ∈ book.ended

theorem leads_drain (d : Deployment) (call : SyncWindowsCall) (rounds : Nat)
    (budget : MaintenanceBudget) (timeout : Int) (targets : List MaintenanceTarget)
    (result : MaintenanceResult) (hwait : ¬(call.mode = .completeWindow ∧ call.wait = false))
    (hcreated : book.created = targets.map (·.syncJobId))
    (hslice : call.mode = .slice → book.ended = []) (hcovered : Covered book targets) :
    Leads (drain d call rounds budget timeout targets result) book fun book' out =>
      Drained call book' out.1 := by
  unfold drain
  split
  · rename_i hidle
    refine Leads.ret ⟨hcreated, hslice, ?_⟩
    intro hmode
    have hwaits : call.wait = true := by
      simpa using fun h => hwait ⟨hmode, h⟩
    have hempty : targets = [] := by
      simpa [hwaits] using hidle
    intro id hid
    rw [hcreated, hempty] at hid
    cases hid
  · split
    · rename_i hmode
      have hmine : ∀ target ∈ targets, target.syncJobId ∈ book.created := by
        intro target htarget
        rw [hcreated]
        exact List.mem_map_of_mem htarget
      refine (leads_drainCompleteWindow d targets result budget timeout rounds hmine
        hcovered).mono ?_
      rintro book' out ⟨hids, honward, hended⟩
      refine ⟨honward.created.trans (hcreated.trans hids.symm), ?_, ?_⟩
      · intro hslice'
        rw [hmode] at hslice'
        cases hslice'
      · intro _ id hid
        rw [honward.created, hcreated] at hid
        rcases List.mem_map.1 hid with ⟨target, htarget, rfl⟩
        exact hended target htarget
    · rename_i hmode
      refine Leads.bind_quiet (quiet_drainMaintenanceTargets ..) fun result => ?_
      refine Leads.ret ⟨hcreated, hslice, ?_⟩
      intro hcomplete
      rw [hmode] at hcomplete
      cases hcomplete

theorem leads_syncPlanned (d : Deployment) (call : SyncWindowsCall) (rounds : Nat)
    (plan : List PlannedRequest) (timeout deadline deadlineAt : Int)
    (hwait : ¬(call.mode = .completeWindow ∧ call.wait = false)) :
    Leads (syncPlanned d call rounds plan timeout deadline deadlineAt) {} fun book out =>
      Drained call book out.1 := by
  unfold syncPlanned
  refine Leads.bind_quiet (quiet_embed _) fun budgetId =>
    (leads_createTargets call.mode _ plan {}).bind ?_
  rintro _ targets ⟨rfl, hunknown⟩
  refine (leads_enqueueTargets d call.mode _ (initialCache plan) targets _ _ ?_ ?_).bind ?_
  · intro target htarget
    exact List.mem_append_right _ (List.mem_map_of_mem htarget)
  · intro target htarget hknown
    exact absurd (hunknown target htarget) hknown
  · rintro book ⟨targets', result⟩ ⟨hids, honward, hcovered, hslice⟩
    refine leads_drain d call rounds _ _ targets' result hwait ?_ ?_ hcovered
    · rw [honward.created]
      simpa using hids.symm
    · intro hmode
      rw [hslice hmode]

theorem leads_windowsDrained (d : Deployment) (call : SyncWindowsCall) (rounds : Nat) :
    Leads (windowsDrained d call rounds) {} fun book out => Drained call book out.1 := by
  unfold windowsDrained
  split
  · exact Leads.raise _
  · rename_i hwait
    split
    · exact Leads.raise _
    · split
      · exact Leads.ret ⟨rfl, fun _ => rfl, fun _ _ hid => hid⟩
      · refine Leads.bind_quiet (quiet_planRequests d _) fun plan => ?_
        dsimp only
        split
        · exact Leads.raise _
        · refine Leads.bind_quiet (quiet_embed _) fun now =>
            Leads.bind_quiet (quiet_embed _) fun later => ?_
          split
          · exact Leads.raise _
          · split
            all_goals
              refine Leads.bind_quiet
                (by first | exact quiet_deadlineCanFitRequests .. | exact .ret _) fun fits => ?_
              split
              · exact Leads.raise _
              · exact leads_syncPlanned d call rounds plan _ _ _ hwait

end Books

end Maintenance
end Huldra
