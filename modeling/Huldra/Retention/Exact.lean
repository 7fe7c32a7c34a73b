import Huldra.Archive
import Mathlib.Data.List.Count

/-!
# Exact — a collection deletes what its preview counts

The deletions of `gc` run one after the other and read each other's tables.  They delete what the
filters select in the state before all of them: the jobs are selected before the queue items their
filter reads are gone, and the budgets when everything that can refer to them is.
-/

namespace Huldra
namespace Archive

/-! ## One row -/

theorem cacheNonExpired_eq_not (entry : CacheEntry) (cutoff : Int) :
    cacheNonExpired entry cutoff = !cacheExpired entry cutoff := by
  unfold cacheNonExpired cacheExpired
  cases cacheEndedAt entry with
  | none => simp
  | some endedAt => simp only [Option.all_some, Option.any_some, Bool.not_and, ← decide_not, not_lt]

theorem queueNonExpired_eq_not (row : QueueRow) (cutoff : Int) :
    queueNonExpired row cutoff = !queueExpired row cutoff := by
  unfold queueNonExpired queueExpired
  cases queueEndedAt row with
  | none => simp
  | some endedAt => simp only [Option.all_some, Option.any_some, Bool.not_and, ← decide_not, not_lt]

/-- What the filter calls ended is what the deletion of queue items selects. -/
theorem queueExpired_eq_collectable (row : QueueRow) (cutoff : Int) :
    queueExpired row cutoff = QueueTables.collectable row cutoff := by
  unfold queueExpired queueEndedAt QueueTables.collectable
  cases row.status <;> simp

theorem not_collectable_of_pending {row : QueueRow} (h : row.status.pending = true)
    (cutoff : Int) : QueueTables.collectable row cutoff = false := by
  unfold QueueTables.collectable
  cases hstatus : row.status with
  | completed => simp [hstatus, RequestStatus.pending] at h
  | failed => simp [hstatus, RequestStatus.pending] at h
  | _ => simp

theorem not_selected_of_running (a : Archive) {job : SyncJobRow} (h : job.status = .running)
    (cutoff : Int) : a.retentionSyncJobFilter cutoff job = false := by
  have hterminal : job.status.terminal = false := by
    rw [h]
    decide
  have hhandoff : job.status.handoff = false := by
    rw [h]
    decide
  simp [retentionSyncJobFilter, hterminal, hhandoff]

/-! ## Counting -/

theorem length_sub_length_filter_not {α : Type} (p : α → Bool) (l : List α) :
    l.length - (l.filter fun x => !p x).length = l.countP p := by
  have hsplit := List.length_eq_countP_add_countP p (l := l)
  rw [← List.countP_eq_length_filter]
  simp only [Bool.not_eq_true, ← Bool.not_eq_true'] at hsplit
  simp only [Bool.decide_eq_true] at hsplit
  omega

/-- Where the keys are unique, a join counts each row that has a partner once. -/
theorem sum_countP_eq_countP {α β κ : Type} [DecidableEq κ] (f : α → κ) (g : β → κ) {l : List α}
    (hnodup : (l.map f).Nodup) (m : List β) :
    (m.map fun b => l.countP fun a => decide (f a = g b)).sum =
      m.countP fun b => (l.map f).contains (g b) := by
  induction m with
  | nil => rfl
  | cons b m ih =>
      have hcount : (l.countP fun a => decide (f a = g b)) = (l.map f).count (g b) := by
        rw [List.count, List.countP_map]
        rfl
      rw [List.map_cons, List.sum_cons, ih, List.countP_cons, hcount]
      by_cases hmem : g b ∈ l.map f
      · rw [List.count_eq_one_of_mem hnodup hmem]
        simp [hmem, Nat.add_comm]
      · rw [List.count_eq_zero_of_not_mem hmem]
        simp [hmem]

/-! ## The four deletions -/

section Collect

variable (a : Archive) (cutoff : Int)

theorem collect_events :
    (a.collect cutoff).2.events = a.events.filter fun event => !(event.createdAt < cutoff) := rfl

theorem collect_items :
    (a.collect cutoff).2.store.queue.items =
      a.store.queue.items.filter fun row => !QueueTables.collectable row cutoff := rfl

theorem collect_pages :
    (a.collect cutoff).2.jobs.syncJobPages =
      a.jobs.syncJobPages.filter fun page =>
        !((a.jobs.syncJobs.filter (a.retentionSyncJobFilter cutoff)).map
          (·.syncJobId)).contains page.syncJobId := rfl

/-- With unique keys the jobs that go are the selected ones. -/
theorem collect_jobs (hkey : (a.jobs.syncJobs.map (·.syncJobId)).Nodup) :
    (a.collect cutoff).2.jobs.syncJobs =
      a.jobs.syncJobs.filter fun job => !a.retentionSyncJobFilter cutoff job := by
  change (a.jobs.syncJobs.filter fun row =>
    !((a.jobs.syncJobs.filter (a.retentionSyncJobFilter cutoff)).map
      (·.syncJobId)).contains row.syncJobId) = _
  refine List.filter_congr fun job hjob => ?_
  rw [Bool.not_inj_iff, List.contains_eq_mem, Bool.eq_iff_iff, decide_eq_true_eq, List.mem_map]
  constructor
  · rintro ⟨other, hother, hid⟩
    rcases List.mem_filter.1 hother with ⟨hmem, hselected⟩
    rwa [List.inj_on_of_nodup_map hkey hmem hjob hid] at hselected
  · intro hselected
    exact ⟨job, List.mem_filter.2 ⟨hjob, hselected⟩, rfl⟩

theorem collect_memberships :
    (a.collect cutoff).2.store.queue.memberships =
      a.store.queue.memberships.filter fun m =>
        (a.collect cutoff).2.store.queue.items.any fun row => row.requestId = m.requestId := rfl

/-- A queue item, a membership or a job refers to the budget. -/
def refersTo (a : Archive) (budgetId : Uuid) : Bool :=
  (a.store.queue.items.any fun row => row.upstreamBudgetId = some budgetId) ||
    (a.store.queue.memberships.any fun m => m.budgetId = budgetId) ||
    (a.jobs.syncJobs.filterMap (·.upstreamBudgetId)).contains budgetId

theorem refersTo_iff {a : Archive} {budgetId : Uuid} :
    a.refersTo budgetId = true ↔
      (∃ row ∈ a.store.queue.items, row.upstreamBudgetId = some budgetId) ∨
      (∃ m ∈ a.store.queue.memberships, m.budgetId = budgetId) ∨
      ∃ job ∈ a.jobs.syncJobs, job.upstreamBudgetId = some budgetId := by
  simp [refersTo, or_assoc]

/-- The budgets that stay are those that something kept refers to. -/
theorem collect_budgets :
    (a.collect cutoff).2.store.queue.budgets =
      a.store.queue.budgets.filter fun budget =>
        (a.collect cutoff).2.refersTo budget.budgetId := rfl

theorem collect_budget? {budgetId : Uuid} (h : (a.collect cutoff).2.refersTo budgetId = true) :
    (a.collect cutoff).2.store.queue.budget? budgetId = a.store.queue.budget? budgetId := by
  unfold QueueTables.budget?
  rw [collect_budgets, List.find?_filter]
  refine congrArg (List.find? · a.store.queue.budgets) (funext fun budget => ?_)
  by_cases hid : budget.budgetId = budgetId
  · rw [hid, h]
    simp
  · simp [hid]

theorem collect_counts (hkey : (a.jobs.syncJobs.map (·.syncJobId)).Nodup) :
    (a.collect cutoff).1 = a.retentionEligibleCounts cutoff := by
  have hevents : (a.collect cutoff).1.events = (a.retentionEligibleCounts cutoff).events :=
    length_sub_length_filter_not (fun event : EventRow => decide (event.createdAt < cutoff))
      a.events
  have hitems : (a.collect cutoff).1.queueItems = (a.retentionEligibleCounts cutoff).queueItems :=
    length_sub_length_filter_not (QueueTables.collectable · cutoff) a.store.queue.items
  have hjobs : (a.collect cutoff).1.syncJobs = (a.retentionEligibleCounts cutoff).syncJobs := by
    change a.jobs.syncJobs.length - (a.collect cutoff).2.jobs.syncJobs.length =
      (a.jobs.syncJobs.filter (a.retentionSyncJobFilter cutoff)).length
    rw [collect_jobs a cutoff hkey, length_sub_length_filter_not, List.countP_eq_length_filter]
  have hpages : (a.collect cutoff).1.syncJobPages =
      (a.retentionEligibleCounts cutoff).syncJobPages := rfl
  calc (a.collect cutoff).1
      = ⟨(a.collect cutoff).1.events, (a.collect cutoff).1.queueItems,
          (a.collect cutoff).1.syncJobs, (a.collect cutoff).1.syncJobPages⟩ := rfl
    _ = a.retentionEligibleCounts cutoff := by rw [hevents, hitems, hjobs, hpages]

/-- The pages counted are the pages that go with their jobs. -/
theorem collect_pages_count (hkey : (a.jobs.syncJobs.map (·.syncJobId)).Nodup) :
    a.jobs.syncJobPages.length - (a.collect cutoff).2.jobs.syncJobPages.length =
      (a.retentionEligibleCounts cutoff).syncJobPages := by
  have hselected : ((a.jobs.syncJobs.filter (a.retentionSyncJobFilter cutoff)).map
      (·.syncJobId)).Nodup := hkey.sublist (List.filter_sublist.map _)
  rw [collect_pages, length_sub_length_filter_not]
  exact (sum_countP_eq_countP (fun job : SyncJobRow => job.syncJobId)
    (fun page : SyncJobPageRow => page.syncJobId) hselected a.jobs.syncJobPages).symm

end Collect

/-! ## The theorem -/

/-- A collection deletes the events, queue items, jobs and pages that its preview counts, leaves
every other table and the unfinished work alone, and keeps the budgets that are referred to. -/
theorem gc_exact (a : Archive) (cutoff : Int)
    (hkey : (a.jobs.syncJobs.map (·.syncJobId)).Nodup) :
    -- The preview changes nothing.
    (a.gc cutoff true).2 = a ∧
    -- What is deleted is what was counted,
    ((a.gc cutoff false).1.eventsDeletedTotal = (a.gc cutoff true).1.eventsEligibleTotal ∧
      (a.gc cutoff false).1.queueItemsDeletedTotal =
        (a.gc cutoff true).1.queueItemsEligibleTotal ∧
      (a.gc cutoff false).1.syncJobsDeletedTotal = (a.gc cutoff true).1.syncJobsEligibleTotal ∧
      (a.gc cutoff false).1.syncJobPagesDeletedTotal =
        (a.gc cutoff true).1.syncJobPagesEligibleTotal ∧
      (a.gc cutoff false).1.deletedTotal = (a.gc cutoff true).1.eligibleTotal) ∧
    -- and what is gone,
    (a.events.length - (a.gc cutoff false).2.events.length =
        (a.gc cutoff false).1.eventsDeletedTotal ∧
      a.store.queue.items.length - (a.gc cutoff false).2.store.queue.items.length =
        (a.gc cutoff false).1.queueItemsDeletedTotal ∧
      a.jobs.syncJobs.length - (a.gc cutoff false).2.jobs.syncJobs.length =
        (a.gc cutoff false).1.syncJobsDeletedTotal ∧
      a.jobs.syncJobPages.length - (a.gc cutoff false).2.jobs.syncJobPages.length =
        (a.gc cutoff false).1.syncJobPagesDeletedTotal) ∧
    -- namely the rows that the filters select in this state.
    ((a.gc cutoff false).2.events = a.events.filter (fun event => !(event.createdAt < cutoff)) ∧
      (a.gc cutoff false).2.store.queue.items =
        a.store.queue.items.filter (fun row => !QueueTables.collectable row cutoff) ∧
      (a.gc cutoff false).2.store.queue.memberships =
        a.store.queue.memberships.filter (fun m =>
          (a.gc cutoff false).2.store.queue.items.any fun row => row.requestId = m.requestId) ∧
      (a.gc cutoff false).2.jobs.syncJobs =
        a.jobs.syncJobs.filter (fun job => !a.retentionSyncJobFilter cutoff job) ∧
      (a.gc cutoff false).2.jobs.syncJobPages =
        a.jobs.syncJobPages.filter fun page => !((a.jobs.syncJobs.filter
          (a.retentionSyncJobFilter cutoff)).map (·.syncJobId)).contains page.syncJobId) ∧
    -- Unfinished work and all other tables stay,
    ((∀ row ∈ a.store.queue.items, row.status.pending = true →
        row ∈ (a.gc cutoff false).2.store.queue.items) ∧
      (∀ job ∈ a.jobs.syncJobs, job.status = .running →
        job ∈ (a.gc cutoff false).2.jobs.syncJobs) ∧
      (a.gc cutoff false).2.store.leases = a.store.leases ∧
      (a.gc cutoff false).2.store.queue.reservations = a.store.queue.reservations ∧
      (a.gc cutoff false).2.store.library = a.store.library ∧
      (a.gc cutoff false).2.store.rates = a.store.rates ∧
      (a.gc cutoff false).2.store.oai = a.store.oai) ∧
    -- and so does every budget that a row kept refers to.
    ((∀ row ∈ (a.gc cutoff false).2.store.queue.items, ∀ budgetId,
        row.upstreamBudgetId = some budgetId →
          (a.gc cutoff false).2.store.queue.budget? budgetId = a.store.queue.budget? budgetId) ∧
      (∀ m ∈ (a.gc cutoff false).2.store.queue.memberships,
        (a.gc cutoff false).2.store.queue.budget? m.budgetId =
          a.store.queue.budget? m.budgetId) ∧
      ∀ job ∈ (a.gc cutoff false).2.jobs.syncJobs, ∀ budgetId,
        job.upstreamBudgetId = some budgetId →
          (a.gc cutoff false).2.store.queue.budget? budgetId =
            a.store.queue.budget? budgetId) := by
  have hcounts := collect_counts a cutoff hkey
  have hout : a.gc cutoff false = (retentionResult cutoff false
      (a.retentionEligibleCounts cutoff) (a.retentionEligibleCounts cutoff),
        (a.collect cutoff).2) := by
    unfold gc
    simp only [Bool.false_eq_true, if_false, hcounts]
  rw [hout]
  refine ⟨rfl, ⟨rfl, rfl, rfl, rfl, rfl⟩, ⟨?_, ?_, ?_, ?_⟩, ⟨rfl, rfl, rfl,
    collect_jobs a cutoff hkey, rfl⟩, ⟨?_, ?_, rfl, rfl, rfl, rfl, rfl⟩, ?_, ?_, ?_⟩
  · exact congrArg RetentionCounts.events hcounts
  · exact congrArg RetentionCounts.queueItems hcounts
  · exact congrArg RetentionCounts.syncJobs hcounts
  · exact collect_pages_count a cutoff hkey
  · intro row hrow hpending
    exact List.mem_filter.2 ⟨hrow, by simp [not_collectable_of_pending hpending cutoff]⟩
  · intro job hjob hrunning
    rw [collect_jobs a cutoff hkey]
    exact List.mem_filter.2 ⟨hjob, by simp [not_selected_of_running a hrunning cutoff]⟩
  · exact fun row hrow budgetId href =>
      collect_budget? a cutoff (refersTo_iff.2 (Or.inl ⟨row, hrow, href⟩))
  · exact fun m hm =>
      collect_budget? a cutoff (refersTo_iff.2 (Or.inr (Or.inl ⟨m, hm, rfl⟩)))
  · exact fun job hjob budgetId href =>
      collect_budget? a cutoff (refersTo_iff.2 (Or.inr (Or.inr ⟨job, hjob, href⟩)))

/-- A window that was finished at second 5, and the event that says so. -/
def finishedWindow : Archive :=
  let request : ArxivRequest := { clientId := "sync", searchQuery := some "cat:cs.AI" }
  { jobs :=
      { syncJobs :=
          [{ syncJobId := 1, mode := .slice, request := request, status := .completed
             upstreamBudgetId := some 0, createdAt := 0, updatedAt := seconds 5
             completedAt := some (seconds 5) }]
        syncJobPages :=
          [{ syncJobId := 1, cacheKey := Keys.requestCacheKey request, request := request
             start := 0, maxResults := 50, status := .completed, createdAt := 0
             updatedAt := seconds 5 }] }
    events := [⟨"sync_job_completed", seconds 5⟩] }

/-- The job, its page and the event go. -/
theorem gc_exact_finished :
    (finishedWindow.gc (seconds 6) false).1.deletedTotal = 3 := by
  have hexact := (gc_exact finishedWindow (seconds 6) (by decide)).2.1.2.2.2.2
  rw [hexact]
  decide +kernel

end Archive
end Huldra
