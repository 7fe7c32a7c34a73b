import Huldra.Queue.Ledger
import Huldra.Harvest

/-!
# Jobs — what an operation does to the row of a harvest job

A job is created once, under an identifier that no other row has, and never deleted; its request
never changes.  `JobEffect` says what each operation makes of its row.
-/

namespace Huldra

namespace OaiTables

/-- The row a new job starts with. -/
def newJob (harvestId : Uuid) (request : OaiHarvestRequest)
    (resumptionToken : Option ResumptionToken) (started : Int) : OaiJobRow :=
  { harvestId := harvestId
    request := request
    status := .running
    resumptionToken := resumptionToken
    deadlineAt := some (started + request.runtimeBudgetSeconds)
    startedAt := started
    updatedAt := started }

/-- What the end of a job makes of its row. -/
def Completion.row (c : Completion) (job : OaiJobRow) : OaiJobRow :=
  { job with
    status := c.status
    recordsProcessed := c.recordsProcessed
    papersUpserted := c.papersUpserted
    deletedRecords := c.deletedRecords
    pagesTotal := c.pagesTotal
    currentWatermark := c.currentWatermark
    resumptionToken := c.resumptionToken
    errorCategory := c.errorCategory
    errorMessage := match c.errorMessage with
      | some m => if m = "" then none else some (String.ofList (m.toList.take 1000))
      | none => none
    updatedAt := c.completed
    completedAt := some c.completed }

/-! ## Rows -/

/-- Identifiers are drawn below `next`, and name one row each. -/
structure Filed (next : Uuid) (o : OaiTables) : Prop where
  nodup : (o.jobs.map (·.harvestId)).Nodup
  drawn : ∀ job ∈ o.jobs, job.harvestId < next

variable {o : OaiTables} {harvestId : Uuid} {job : OaiJobRow}

theorem mem_of_job? (h : o.job? harvestId = some job) : job ∈ o.jobs :=
  List.mem_of_find?_eq_some h

theorem job?_harvestId (h : o.job? harvestId = some job) : job.harvestId = harvestId := by
  simpa using List.find?_some h

theorem job?_of_mem {next : Uuid} (hfiled : Filed next o) (h : job ∈ o.jobs) :
    o.job? job.harvestId = some job := by
  cases hfound : o.job? job.harvestId with
  | none =>
      have hnone := List.find?_eq_none.1 hfound job h
      simp at hnone
  | some found =>
      have hsame := List.inj_on_of_nodup_map hfiled.nodup (mem_of_job? hfound) h
        (job?_harvestId hfound)
      rw [hsame]

/-- An update of one job that keeps its id is seen by every look-up. -/
theorem job?_map_updateJob {f : OaiJobRow → OaiJobRow}
    (hf : ∀ job, (f job).harvestId = job.harvestId) (updated : Uuid) :
    (o.updateJob updated f).job? harvestId =
      (o.job? harvestId).map fun job => if job.harvestId = updated then f job else job := by
  have hkey : ∀ job : OaiJobRow,
      (if job.harvestId = updated then f job else job).harvestId = job.harvestId := by
    intro job
    split
    · exact hf job
    · rfl
  have hsame : ((fun job : OaiJobRow => decide (job.harvestId = harvestId)) ∘
      fun job => if job.harvestId = updated then f job else job) =
        fun job => decide (job.harvestId = harvestId) := by
    funext job
    rw [Function.comp_apply, hkey]
  rw [job?, updateJob, List.find?_map, hsame, job?]

theorem job?_updateJob {f : OaiJobRow → OaiJobRow} (hf : ∀ job, (f job).harvestId = job.harvestId)
    (updated : Uuid) (h : o.job? harvestId = some job) :
    (o.updateJob updated f).job? harvestId =
      some (if job.harvestId = updated then f job else job) := by
  rw [job?_map_updateJob hf, h, Option.map_some]

theorem job?_updateJob_none {f : OaiJobRow → OaiJobRow}
    (hf : ∀ job, (f job).harvestId = job.harvestId) (updated : Uuid)
    (h : o.job? harvestId = none) : (o.updateJob updated f).job? harvestId = none := by
  rw [job?_map_updateJob hf, h, Option.map_none]

theorem filed_updateJob {next : Uuid} (hfiled : Filed next o) {f : OaiJobRow → OaiJobRow}
    (hf : ∀ job, (f job).harvestId = job.harvestId) (updated : Uuid) :
    Filed next (o.updateJob updated f) := by
  have hids : (o.updateJob updated f).jobs.map (·.harvestId) = o.jobs.map (·.harvestId) := by
    simp only [updateJob, List.map_map]
    apply List.map_congr_left
    intro job _
    simp only [Function.comp_apply]
    split
    · exact hf job
    · rfl
  refine ⟨by rw [hids]; exact hfiled.nodup, ?_⟩
  intro job hjob
  have hmem : job.harvestId ∈ o.jobs.map (·.harvestId) := by
    rw [← hids]
    exact List.mem_map_of_mem hjob
  rcases List.mem_map.1 hmem with ⟨old, hold, hid⟩
  rw [← hid]
  exact hfiled.drawn old hold

@[simp] theorem putPage_jobs (page : OaiPageRow) : (o.putPage page).jobs = o.jobs := by
  unfold putPage
  split <;> rfl

@[simp] theorem setOaiWatermark_jobs (key : WatermarkKey) (responseDate datestamp : Option Int)
    (timestamp : Int) :
    (o.setOaiWatermark key responseDate datestamp harvestId timestamp).jobs = o.jobs := rfl

theorem job?_congr {o' : OaiTables} (h : o'.jobs = o.jobs) (harvestId : Uuid) :
    o'.job? harvestId = o.job? harvestId := by
  unfold job?
  rw [h]

/-- The job that a request may continue runs, and has the scope of the request. -/
theorem getRunningOaiHarvest_spec {request : OaiHarvestRequest}
    (h : o.getRunningOaiHarvest request = some job) :
    job ∈ o.jobs ∧ job.status = .running ∧ sameOaiResumeScope job.request request = true := by
  unfold getRunningOaiHarvest at h
  have hfound := List.find?_some h
  have hmem := List.mem_of_mem_take (List.mem_of_find?_eq_some h)
  rw [List.mem_insertionSort, List.mem_filter] at hmem
  refine ⟨(List.mem_filter.1 hmem.1).1, by simpa using hmem.2, ?_⟩
  simp only [Bool.and_eq_true] at hfound
  exact hfound.1

end OaiTables

namespace Harvest

open OaiTables

/-- Requests of one resume scope are harvested under one lease. -/
theorem oaiScopeLeaseName_congr {left right : OaiHarvestRequest}
    (h : sameOaiResumeScope left right = true) :
    oaiScopeLeaseName left = oaiScopeLeaseName right := by
  simp only [sameOaiResumeScope, Bool.and_eq_true, decide_eq_true_eq] at h
  rcases h with ⟨⟨⟨⟨hpre, hset⟩, hfrom⟩, huntil⟩, hmode⟩
  simp [oaiScopeLeaseName, shouldCommitOaiWatermark, hpre, hset, hfrom, huntil, hmode]

theorem oaiScopeLeaseName_ne (request : OaiHarvestRequest) :
    oaiScopeLeaseName request ≠ Limiter.leaseName := by
  unfold oaiScopeLeaseName
  split <;> exact LeaseName.noConfusion

/-! ## One operation -/

/-- What an operation makes of the row of a job. -/
inductive JobEffect (o : Op) (job : OaiJobRow) : OaiJobRow → Prop
  | kept : JobEffect o job job
  | dated (deadlineAt timestamp : Int)
      (op_eq : o = .oai (.ensureOaiHarvestDeadline job.harvestId deadlineAt timestamp)) :
      JobEffect o job
        { job with deadlineAt := job.deadlineAt.or (some deadlineAt), updatedAt := timestamp }
  | counted (timestamp : Int)
      (op_eq : o = .oai (.recordOaiRequestStarted job.harvestId timestamp))
      (running : job.status = .running) :
      JobEffect o job { job with requestsTotal := job.requestsTotal + 1, updatedAt := timestamp }
  | committed (c : Checkpoint) (counts : Nat × Nat × Nat) (op_eq : o = .checkpointOaiPage c)
      (harvestId_eq : c.harvestId = job.harvestId) (running : job.status = .running)
      (page_eq : job.pagesTotal = c.pageIndex)
      (token_eq : job.resumptionToken = c.consumedResumptionToken) :
      JobEffect o job (c.advance counts job)
  | completed (c : Completion) (op_eq : o = .oai (.completeOaiHarvestJob c))
      (harvestId_eq : c.harvestId = job.harvestId) : JobEffect o job (c.row job)

namespace JobEffect

variable {o : Op} {job job' : OaiJobRow}

theorem harvestId_eq (h : JobEffect o job job') : job'.harvestId = job.harvestId := by
  cases h with
  | committed c counts op_eq hid running page_eq token_eq => simp [Checkpoint.advance, running]
  | _ => rfl

theorem request_eq (h : JobEffect o job job') : job'.request = job.request := by
  cases h with
  | committed c counts op_eq hid running page_eq token_eq => simp [Checkpoint.advance, running]
  | _ => rfl

/-- A job that runs was running before, and has counted no fewer requests and pages. -/
theorem running (h : JobEffect o job job')
    (hcompletes : ∀ c, o = .oai (.completeOaiHarvestJob c) → c.status ≠ .running)
    (hrunning : job'.status = .running) :
    job.status = .running ∧ job.requestsTotal ≤ job'.requestsTotal ∧
      job.pagesTotal ≤ job'.pagesTotal := by
  cases h with
  | kept => exact ⟨hrunning, Nat.le_refl _, Nat.le_refl _⟩
  | dated deadlineAt timestamp op_eq => exact ⟨hrunning, Nat.le_refl _, Nat.le_refl _⟩
  | counted timestamp op_eq running => exact ⟨running, Nat.le_succ _, Nat.le_refl _⟩
  | committed c counts op_eq hid running page_eq token_eq =>
      refine ⟨running, ?_, ?_⟩
      · simp [Checkpoint.advance, running]
      · simp only [Checkpoint.advance, running, if_true]
        exact Nat.le_max_left _ _
  | completed c op_eq hid => exact absurd hrunning (hcompletes c op_eq)

end JobEffect

/-- What an operation makes of the jobs: rows change one by one, or a new one is filed. -/
structure JobsEffect (o : Op) (next : Uuid) (before after : OaiTables) : Prop where
  rows : ∀ harvestId job, before.job? harvestId = some job →
    ∃ job', after.job? harvestId = some job' ∧ JobEffect o job job'
  fresh : ∀ harvestId job', before.job? harvestId = none → after.job? harvestId = some job' →
    harvestId = next ∧ ∃ request token started,
      o = .oai (.createOaiHarvestJob request token started) ∧
        job' = newJob next request token started

theorem jobsEffect_refl (o : Op) (next : Uuid) (t : OaiTables) : JobsEffect o next t t where
  rows := fun _ job h => ⟨job, h, .kept⟩
  fresh := fun _ _ hnone hsome => by
    rw [hnone] at hsome
    cases hsome

theorem jobsEffect_of_jobs {o : Op} {next : Uuid} {t t' : OaiTables} (h : t'.jobs = t.jobs) :
    JobsEffect o next t t' where
  rows := fun harvestId job hjob => ⟨job, by rw [job?_congr h, hjob], .kept⟩
  fresh := fun harvestId job' hnone hsome => by
    rw [job?_congr h, hnone] at hsome
    cases hsome

/-- An update of one row by a function that is an effect of the operation. -/
theorem jobsEffect_updateJob {o : Op} {next : Uuid} {t : OaiTables} {f : OaiJobRow → OaiJobRow}
    (updated : Uuid) (hf : ∀ job, (f job).harvestId = job.harvestId)
    (heffect : ∀ job, t.job? updated = some job → JobEffect o job (f job)) :
    JobsEffect o next t (t.updateJob updated f) where
  rows := by
    intro harvestId job hjob
    refine ⟨_, job?_updateJob hf updated hjob, ?_⟩
    split
    · rename_i hid
      refine heffect job ?_
      rw [← hid, job?_harvestId hjob]
      exact hjob
    · exact .kept
  fresh := by
    intro harvestId job' hnone hsome
    rw [job?_updateJob_none hf updated hnone] at hsome
    cases hsome

theorem jobsEffect_create {next : Uuid} {t : OaiTables} (hfiled : Filed next t)
    (request : OaiHarvestRequest) (token : Option ResumptionToken) (started : Int) :
    JobsEffect (.oai (.createOaiHarvestJob request token started)) next t
      (t.createOaiHarvestJob next request token started) where
  rows := by
    intro harvestId job hjob
    refine ⟨job, ?_, .kept⟩
    unfold job? at hjob ⊢
    simp [OaiTables.createOaiHarvestJob, List.find?_append, hjob]
  fresh := by
    intro harvestId job' hnone hsome
    have hid := job?_harvestId hsome
    have hmem := mem_of_job? hsome
    simp only [OaiTables.createOaiHarvestJob, List.mem_append, List.mem_singleton] at hmem
    rcases hmem with hold | hnew
    · have := job?_of_mem hfiled hold
      rw [hid, hnone] at this
      cases this
    · subst hnew
      exact ⟨hid.symm, request, token, started, rfl, rfl⟩

/-- The jobs stay filed, and change by the effect of the operation. -/
structure JobsStep (o : Op) (next next' : Uuid) (before after : OaiTables) : Prop where
  effect : JobsEffect o next before after
  filed : Filed next before → Filed next' after

theorem jobsStep_refl (o : Op) {next next' : Uuid} (hnext : next ≤ next') (t : OaiTables) :
    JobsStep o next next' t t where
  effect := jobsEffect_refl o next t
  filed := fun h => ⟨h.nodup, fun job hjob => Nat.lt_of_lt_of_le (h.drawn job hjob) hnext⟩

theorem jobsStep_of_jobs {o : Op} {next next' : Uuid} (hnext : next ≤ next') {t t' : OaiTables}
    (h : t'.jobs = t.jobs) : JobsStep o next next' t t' where
  effect := jobsEffect_of_jobs h
  filed := fun hfiled => by
    refine ⟨by rw [h]; exact hfiled.nodup, ?_⟩
    intro job hjob
    rw [h] at hjob
    exact Nat.lt_of_lt_of_le (hfiled.drawn job hjob) hnext

theorem jobsStep_updateJob {o : Op} {next next' : Uuid} (hnext : next ≤ next') {t : OaiTables}
    {f : OaiJobRow → OaiJobRow} (updated : Uuid) (hf : ∀ job, (f job).harvestId = job.harvestId)
    (heffect : ∀ job, t.job? updated = some job → JobEffect o job (f job)) :
    JobsStep o next next' t (t.updateJob updated f) where
  effect := jobsEffect_updateJob updated hf heffect
  filed := fun hfiled => by
    have hfiled' := filed_updateJob hfiled hf updated
    exact ⟨hfiled'.nodup, fun job hjob => Nat.lt_of_lt_of_le (hfiled'.drawn job hjob) hnext⟩

theorem filed_create {next : Uuid} {t : OaiTables} (hfiled : Filed next t)
    (request : OaiHarvestRequest) (token : Option ResumptionToken) (started : Int) :
    Filed (next + 1) (t.createOaiHarvestJob next request token started) := by
  refine ⟨?_, ?_⟩
  · simp only [OaiTables.createOaiHarvestJob, List.map_append, List.map_cons, List.map_nil]
    refine List.Nodup.append hfiled.nodup (List.nodup_singleton _) ?_
    intro id hid hnew
    rcases List.mem_map.1 hid with ⟨job, hjob, rfl⟩
    rw [List.mem_singleton] at hnew
    exact absurd (hfiled.drawn job hjob) (by rw [hnew]; exact Nat.lt_irrefl _)
  · intro job hjob
    simp only [OaiTables.createOaiHarvestJob, List.mem_append, List.mem_singleton] at hjob
    rcases hjob with hold | rfl
    · exact Nat.lt_succ_of_lt (hfiled.drawn job hold)
    · exact Nat.lt_succ_self _

/-- One operation on the tables of the harvests. -/
theorem jobsStep_oai (o : OaiOp) (next : Uuid) {t : OaiTables} (hfiled : Filed next t) :
    JobsStep (.oai o) next (next + 1) t (o.exec next t).2 := by
  have hnext : next ≤ next + 1 := Nat.le_succ next
  cases o with
  | getRunningOaiHarvest => exact jobsStep_refl _ hnext t
  | getLatestResumableOaiHarvestToken => exact jobsStep_refl _ hnext t
  | createOaiHarvestJob request token started =>
      exact ⟨jobsEffect_create hfiled request token started,
        fun _ => filed_create hfiled request token started⟩
  | getOaiHarvestResult => exact jobsStep_refl _ hnext t
  | ensureOaiHarvestDeadline harvestId deadlineAt timestamp =>
      have hstep : JobsStep (.oai (.ensureOaiHarvestDeadline harvestId deadlineAt timestamp)) next
          (next + 1) t (t.updateJob harvestId fun job =>
            if job.status = .running then
              { job with deadlineAt := job.deadlineAt.or (some deadlineAt), updatedAt := timestamp }
            else job) := by
        refine jobsStep_updateJob hnext harvestId (fun job => by split <;> rfl) ?_
        intro job hjob
        split
        · exact .dated deadlineAt timestamp (by rw [job?_harvestId hjob])
        · exact .kept
      simp only [OaiOp.exec, OaiTables.ensureOaiHarvestDeadline]
      split
      · exact hstep
      · split <;> exact hstep
  | getOaiConsumedTokenHashes => exact jobsStep_refl _ hnext t
  | recordOaiRequestStarted harvestId timestamp =>
      have hstep : JobsStep (.oai (.recordOaiRequestStarted harvestId timestamp)) next
          (next + 1) t (t.updateJob harvestId fun job =>
            if job.status = .running then
              { job with requestsTotal := job.requestsTotal + 1, updatedAt := timestamp }
            else job) := by
        refine jobsStep_updateJob hnext harvestId (fun job => by split <;> rfl) ?_
        intro job hjob
        split
        · rename_i hrunning
          exact .counted timestamp (by rw [job?_harvestId hjob]) hrunning
        · exact .kept
      simp only [OaiOp.exec, OaiTables.recordOaiRequestStarted]
      split <;> exact hstep
  | recordOaiPage page => exact jobsStep_of_jobs hnext (putPage_jobs page)
  | getOaiWatermark => exact jobsStep_refl _ hnext t
  | setOaiWatermark key responseDate datestamp harvestId timestamp =>
      exact jobsStep_of_jobs hnext (setOaiWatermark_jobs key responseDate datestamp timestamp)
  | completeOaiHarvestJob c =>
      exact jobsStep_updateJob hnext c.harvestId (fun _ => rfl)
        fun job hjob => .completed c rfl (job?_harvestId hjob).symm

/-- The commit of a page moves the job it matches. -/
theorem jobsStep_checkpoint (c : Checkpoint) {s : Store} :
    JobsStep (.checkpointOaiPage c) s.nextUuid s.nextUuid s.oai (s.checkpointOaiPage c).2.oai := by
  unfold Store.checkpointOaiPage
  split
  · rename_i hmatches
    have hput : JobsStep (.checkpointOaiPage c) s.nextUuid s.nextUuid (s.oai.putPage c.page)
        (s.oai.checkpointPage c (s.library.upsertOaiRecords c.records c.timestamp).1) := by
      refine jobsStep_updateJob (Nat.le_refl _) c.harvestId ?_ ?_
      · intro job
        unfold Checkpoint.advance
        split <;> rfl
      · intro job hjob
        rw [job?_congr (putPage_jobs c.page)] at hjob
        simp only [matchesCursor, hjob, Bool.and_eq_true, decide_eq_true_eq] at hmatches
        exact .committed c _ rfl (job?_harvestId hjob).symm hmatches.1.1 hmatches.1.2 hmatches.2
    have hjobs : ∀ harvestId, (s.oai.putPage c.page).job? harvestId = s.oai.job? harvestId :=
      job?_congr (putPage_jobs c.page)
    refine ⟨⟨?_, ?_⟩, ?_⟩
    · intro harvestId job hjob
      exact hput.effect.rows harvestId job ((hjobs harvestId).trans hjob)
    · intro harvestId job' hnone
      exact hput.effect.fresh harvestId job' ((hjobs harvestId).trans hnone)
    · intro hfiled
      exact hput.filed ((jobsStep_of_jobs (o := .initSchema) (Nat.le_refl _)
        (putPage_jobs c.page)).filed hfiled)
  · exact jobsStep_refl _ (Nat.le_refl _) _

variable {o : Op} {t : Int} {r : Except Exn o.Res} {s s' : Store}

/-- What any operation makes of the jobs. -/
theorem jobsStep_of_performed (hfiled : Filed s.nextUuid s.oai) (h : Store.Performed o t r s s') :
    JobsStep o s.nextUuid s'.nextUuid s.oai s'.oai := by
  have hnext := Queue.nextUuid_le h
  rcases h.state with rfl | ⟨input, rfl⟩
  · exact jobsStep_refl o (Nat.le_refl _) _
  · cases o with
    | oai o => exact jobsStep_oai o s.nextUuid hfiled
    | checkpointOaiPage c =>
        have hsame : (s.checkpointOaiPage c).2.nextUuid = s.nextUuid := by
          unfold Store.checkpointOaiPage
          split <;> rfl
        have hstep := jobsStep_checkpoint c (s := s)
        exact ⟨hstep.effect, fun hfiled =>
          by simpa only [Store.exec, hsame] using hstep.filed hfiled⟩
    | clock => exact jobsStep_refl _ hnext _
    | lease => exact jobsStep_refl _ hnext _
    | rate => exact jobsStep_refl _ hnext _
    | queue => exact jobsStep_refl _ hnext _
    | library => exact jobsStep_refl _ hnext _
    | upstream => exact jobsStep_refl _ hnext _
    | initSchema => exact jobsStep_of_jobs hnext (congrArg OaiTables.jobs s.initSchema_oai)
    | renewWorkerFetchOwnership requestId owner name ttl ids =>
        have hoai : (Store.exec (.renewWorkerFetchOwnership requestId owner name ttl ids) t input
            s).2.oai = s.oai := by
          simp only [Store.exec, Store.renewWorkerFetchOwnership]
          split
          · rfl
          · split
            · rfl
            · split <;> rfl
        exact jobsStep_of_jobs hnext (congrArg OaiTables.jobs hoai)
    | enqueueRefreshIfDue request cacheKey timeout current =>
        have hoai : (Store.exec (.enqueueRefreshIfDue request cacheKey timeout current) t input
            s).2.oai = s.oai := by
          simp only [Store.exec, Store.enqueueRefreshIfDue]
          split
          · rfl
          · split
            · rfl
            · split
              · rfl
              · split
                · split
                  · split <;> rfl
                  · rfl
                · rfl
        exact jobsStep_of_jobs hnext (congrArg OaiTables.jobs hoai)

/-! ## Answers -/

theorem running_of_answer {request : OaiHarvestRequest} {row : OaiJobRow}
    (h : Store.Performed (.oai (.getRunningOaiHarvest request)) t (.ok (some row)) s s') :
    s.oai.getRunningOaiHarvest request = some row ∧ s'.oai = s.oai := by
  rcases h.of_ok with ⟨input, _, hexec⟩
  simp only [Store.exec, OaiOp.exec, Prod.mk.injEq, Except.ok.injEq] at hexec
  exact ⟨hexec.1, by rw [← hexec.2]⟩

theorem created_of_answer {request : OaiHarvestRequest} {token : Option ResumptionToken}
    {started : Int} {harvestId : Uuid} (hfiled : Filed s.nextUuid s.oai)
    (h : Store.Performed (.oai (.createOaiHarvestJob request token started)) t (.ok harvestId)
      s s') :
    s.oai.job? harvestId = none ∧
      s'.oai.job? harvestId = some (newJob harvestId request token started) := by
  rcases h.of_ok with ⟨input, _, hexec⟩
  simp only [Store.exec, OaiOp.exec, Prod.mk.injEq, Except.ok.injEq] at hexec
  rcases hexec with ⟨rfl, rfl⟩
  have hnone : s.oai.job? s.nextUuid = none := by
    refine List.find?_eq_none.2 fun job hjob => ?_
    have := hfiled.drawn job hjob
    simp only [decide_eq_true_eq]
    exact Nat.ne_of_lt this
  refine ⟨hnone, ?_⟩
  unfold job? at hnone ⊢
  simp [OaiTables.createOaiHarvestJob, List.find?_append, hnone, newJob]

/-- The count that is answered is the one on the row. -/
theorem counted_of_answer {harvestId : Uuid} {timestamp : Int} {total : Nat} {job job' : OaiJobRow}
    (h : Store.Performed (.oai (.recordOaiRequestStarted harvestId timestamp)) t (.ok total) s s')
    (hjob : s.oai.job? harvestId = some job) (hjob' : s'.oai.job? harvestId = some job') :
    job'.requestsTotal = total ∧
      (job.status = .running → job'.requestsTotal = job.requestsTotal + 1) := by
  have hupdated := job?_updateJob (f := fun job =>
      if job.status = .running then
        { job with requestsTotal := job.requestsTotal + 1, updatedAt := timestamp }
      else job) (fun job => by split <;> rfl) harvestId hjob
  rw [if_pos (job?_harvestId hjob)] at hupdated
  rcases h.of_ok with ⟨input, _, hexec⟩
  simp only [Store.exec, OaiOp.exec, OaiTables.recordOaiRequestStarted, hupdated, Prod.mk.injEq,
    Except.ok.injEq] at hexec
  rcases hexec with ⟨htotal, rfl⟩
  rw [hupdated] at hjob'
  cases hjob'
  refine ⟨htotal, ?_⟩
  intro hrunning
  simp [hrunning]

theorem matchesCursor_of_answer {c : Checkpoint} {counts : Nat × Nat × Nat}
    (h : Store.Performed (.checkpointOaiPage c) t (.ok counts) s s') :
    s.oai.matchesCursor c = true := by
  rcases h.of_ok with ⟨input, _, hexec⟩
  simp only [Store.exec, Store.checkpointOaiPage] at hexec
  split at hexec
  · assumption
  · cases hexec

/-- A renewal that is granted was asked for by the owners. -/
theorem owned_of_renewed {renewals : List LeaseRenewal}
    (h : Store.Performed (.lease (.renewLeasesIfOwned renewals)) t (.ok true) s s') :
    ∀ renewal ∈ renewals, s.leases.ownedBy renewal.name renewal.ownerToken = true := by
  rcases h.of_ok with ⟨input, _, hexec⟩
  simp only [Store.exec, LeaseOp.exec, Prod.mk.injEq] at hexec
  rcases s.leases.renewLeasesIfOwned_cases renewals t with
    ⟨r, hr, heq⟩ | ⟨leases', _, hlisted, _⟩
  · rw [heq] at hexec
    exact absurd hexec.1 hr
  · exact fun renewal hmem => (hlisted renewal hmem).1

theorem drawn_of_answer {uuid : Uuid}
    (h : Store.Performed (.clock .uuid4) t (.ok uuid) s s') :
    uuid = s.nextUuid ∧ s'.nextUuid = uuid + 1 := by
  rcases h.of_ok with ⟨input, _, hexec⟩
  simp only [Store.exec, ClockOp.exec, Prod.mk.injEq, Except.ok.injEq] at hexec
  rcases hexec with ⟨rfl, rfl⟩
  exact ⟨rfl, rfl⟩

/-! ## The lease of a scope -/

theorem ownedBy_extend (leases : Leases) (name n : LeaseName) (owner owner' : OwnerToken)
    (expiresAt : Int) :
    (leases.extend n owner' expiresAt).ownedBy name owner = leases.ownedBy name owner := by
  by_cases hname : name = n
  · subst hname
    cases hrow : leases name with
    | none => simp [Leases.extend, Leases.ownedBy, hrow]
    | some row =>
        by_cases howner : row.ownerToken = owner'
        · simp [Leases.extend, Leases.ownedBy, hrow, howner]
        · simp [Leases.extend, Leases.ownedBy, hrow, howner]
  · exact Leases.ownedBy_extend_of_ne hname owner' owner expiresAt

/-- Who owns a lease owned it before, or acquires it now. -/
theorem ownedBy_of_performed {name : LeaseName} {owner : OwnerToken}
    (h : Store.Performed o t r s s') (howned : s'.leases.ownedBy name owner = true) :
    s.leases.ownedBy name owner = true ∨
      ∃ timeout, o = .lease (.acquireLease name owner timeout) := by
  rcases h.state with rfl | ⟨input, rfl⟩
  · exact Or.inl howned
  · cases o with
    | lease o =>
        cases o with
        | acquireLease n owner' timeout =>
            simp only [Store.exec, LeaseOp.exec] at howned
            rcases s.leases.acquireLease_cases n owner' timeout t with ⟨heq, _⟩ | ⟨heq, _⟩
            · rw [heq] at howned
              exact Or.inl howned
            · rw [heq] at howned
              by_cases hname : name = n
              · subst hname
                have : owner' = owner := by
                  simpa [Leases.ownedBy] using howned
                subst this
                exact Or.inr ⟨timeout, rfl⟩
              · left
                simpa [Leases.ownedBy, Function.update_of_ne hname] using howned
        | renewLeasesIfOwned renewals =>
            left
            simp only [Store.exec, LeaseOp.exec] at howned
            rcases s.leases.renewLeasesIfOwned_cases renewals t with
              ⟨r, _, heq⟩ | ⟨leases', heq, hlisted, hothers⟩
            · rw [heq] at howned
              exact howned
            · rw [heq] at howned
              dsimp only at howned
              by_cases hmem : name ∈ renewals.map LeaseRenewal.name
              · rcases List.mem_map.1 hmem with ⟨renewal, hrenewal, rfl⟩
                rcases Leases.ownedBy_iff.1 howned with ⟨row, hrow, howner⟩
                rw [(hlisted renewal hrenewal).2, Option.map_eq_some_iff] at hrow
                rcases hrow with ⟨old, hold, rfl⟩
                exact Leases.ownedBy_iff.2 ⟨old, hold, howner⟩
              · simpa [Leases.ownedBy, hothers name hmem] using howned
        | releaseLease n owner' =>
            left
            simp only [Store.exec, LeaseOp.exec, Leases.releaseLease] at howned
            split at howned
            · by_cases hname : name = n
              · subst hname
                simp [Leases.ownedBy] at howned
              · simpa [Leases.ownedBy, Function.update_of_ne hname] using howned
            · exact howned
    | renewWorkerFetchOwnership requestId owner' n ttl ids =>
        left
        simp only [Store.exec, Store.renewWorkerFetchOwnership] at howned
        split at howned
        · exact howned
        · split at howned
          · exact howned
          · split at howned
            · exact howned
            · rw [← ownedBy_extend s.leases name n owner owner']
              exact howned
    | enqueueRefreshIfDue request cacheKey timeout current =>
        left
        simp only [Store.exec, Store.enqueueRefreshIfDue] at howned
        split at howned
        · exact howned
        · split at howned
          · exact howned
          · split at howned
            · exact howned
            · split at howned
              · split at howned
                · split at howned <;> exact howned
                · exact howned
              · exact howned
    | checkpointOaiPage c =>
        left
        simp only [Store.exec, Store.checkpointOaiPage] at howned
        split at howned <;> exact howned
    | initSchema =>
        left
        simpa only [Store.exec, Store.initSchema_leases] using howned
    | _ => exact Or.inl howned

end Harvest
end Huldra
