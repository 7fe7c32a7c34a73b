import Huldra.Retention.Exact

/-!
# Absorb — an early collection and a later one

A later cutoff selects more.  A job that was handed to a worker is judged by the cache entries and
the queue items of its pages, though, and an early collection may have taken the items away: such a
job is `Stranded`, and no collection removes it any more.
-/

namespace Huldra
namespace Archive

variable {a : Archive} {c₁ c₂ cutoff : Int} {job : SyncJobRow} {page : SyncJobPageRow}

/-! ## A later cutoff selects more -/

theorem cacheExpired_mono (hc : c₁ ≤ c₂) {entry : CacheEntry} (h : cacheExpired entry c₁ = true) :
    cacheExpired entry c₂ = true := by
  unfold cacheExpired at h ⊢
  cases hended : cacheEndedAt entry with
  | none => simp [hended] at h
  | some endedAt =>
      simp only [hended, Option.any_some, Bool.and_eq_true, decide_eq_true_eq] at h ⊢
      exact ⟨h.1, h.2.trans_le hc⟩

theorem collectable_mono (hc : c₁ ≤ c₂) {row : QueueRow}
    (h : QueueTables.collectable row c₁ = true) : QueueTables.collectable row c₂ = true := by
  rw [← queueExpired_eq_collectable] at h ⊢
  unfold queueExpired at h ⊢
  cases hended : queueEndedAt row with
  | none => simp [hended] at h
  | some endedAt =>
      simp only [hended, Option.any_some, Bool.and_eq_true, decide_eq_true_eq] at h ⊢
      exact ⟨h.1, h.2.trans_le hc⟩

/-- All work on the page ended before the cutoff, and some of it is on record. -/
theorem pageUnsettled_eq_false_iff :
    a.pageUnsettled cutoff page = false ↔
      (∀ e ∈ a.store.library.cacheEntries, e.cacheKey = page.cacheKey →
        cacheExpired e cutoff = true) ∧
      (∀ row ∈ a.store.queue.items, row.cacheKey = page.cacheKey →
        QueueTables.collectable row cutoff = true) ∧
      ((∃ e ∈ a.store.library.cacheEntries, e.cacheKey = page.cacheKey) ∨
        ∃ row ∈ a.store.queue.items, row.cacheKey = page.cacheKey) := by
  unfold pageUnsettled
  simp only [cacheNonExpired_eq_not, queueNonExpired_eq_not, queueExpired_eq_collectable,
    Bool.or_eq_false_iff, List.any_eq_false, List.mem_filter, decide_eq_true_eq,
    Bool.not_eq_false, Bool.not_eq_true', Bool.not_eq_false', Bool.and_eq_false_iff,
    List.any_eq_true, and_imp, and_assoc]
  constructor
  · rintro ⟨hentries, hitems, hsome⟩
    refine ⟨hentries, hitems, hsome.imp ?_ ?_⟩
    · rintro ⟨e, he, hkey, _⟩
      exact ⟨e, he, hkey⟩
    · rintro ⟨row, hrow, hkey, _⟩
      exact ⟨row, hrow, hkey⟩
  · rintro ⟨hentries, hitems, hsome⟩
    refine ⟨hentries, hitems, hsome.imp ?_ ?_⟩
    · rintro ⟨e, he, hkey⟩
      exact ⟨e, he, hkey, hentries e he hkey⟩
    · rintro ⟨row, hrow, hkey⟩
      exact ⟨row, hrow, hkey, hitems row hrow hkey⟩

theorem retentionSyncJobFilter_iff :
    a.retentionSyncJobFilter cutoff job = true ↔
      (∃ completedAt, job.completedAt = some completedAt ∧ completedAt < cutoff) ∧
      (job.status.terminal = true ∨
        job.status.handoff = true ∧
          (∃ page ∈ a.jobs.syncJobPages, page.syncJobId = job.syncJobId) ∧
          ∀ page ∈ a.jobs.syncJobPages, page.syncJobId = job.syncJobId →
            a.pageUnsettled cutoff page = false) := by
  unfold retentionSyncJobFilter
  simp [Option.any_eq_true, and_assoc]

theorem pageSettled_mono (hc : c₁ ≤ c₂) (h : a.pageUnsettled c₁ page = false) :
    a.pageUnsettled c₂ page = false := by
  rcases pageUnsettled_eq_false_iff.1 h with ⟨hentries, hitems, hsome⟩
  exact pageUnsettled_eq_false_iff.2 ⟨fun e he hkey => cacheExpired_mono hc (hentries e he hkey),
    fun row hrow hkey => collectable_mono hc (hitems row hrow hkey), hsome⟩

theorem selected_mono (hc : c₁ ≤ c₂) (h : a.retentionSyncJobFilter c₁ job = true) :
    a.retentionSyncJobFilter c₂ job = true := by
  rcases retentionSyncJobFilter_iff.1 h with ⟨⟨completedAt, hcompleted, hold⟩, hstatus⟩
  refine retentionSyncJobFilter_iff.2 ⟨⟨completedAt, hcompleted, hold.trans_le hc⟩, ?_⟩
  refine hstatus.imp_right ?_
  rintro ⟨hhandoff, hpage, hsettled⟩
  exact ⟨hhandoff, hpage, fun page hmem hid => pageSettled_mono hc (hsettled page hmem hid)⟩

/-! ## After an early collection -/

/-- The job would be selected at the later cutoff and is not at the earlier one, and the earlier
collection takes the only records of one of its pages. -/
def Stranded (a : Archive) (c₁ c₂ : Int) (job : SyncJobRow) : Prop :=
  job.status.handoff = true ∧ a.retentionSyncJobFilter c₂ job = true ∧
    a.retentionSyncJobFilter c₁ job = false ∧
    ∃ page ∈ a.jobs.syncJobPages, page.syncJobId = job.syncJobId ∧
      (∀ e ∈ a.store.library.cacheEntries, e.cacheKey ≠ page.cacheKey) ∧
      ∀ row ∈ a.store.queue.items, row.cacheKey = page.cacheKey →
        QueueTables.collectable row c₁ = true

instance (a : Archive) (c₁ c₂ : Int) (job : SyncJobRow) : Decidable (a.Stranded c₁ c₂ job) :=
  inferInstanceAs (Decidable (_ ∧ _))

theorem mem_items_collect {row : QueueRow} :
    row ∈ (a.collect cutoff).2.store.queue.items ↔
      row ∈ a.store.queue.items ∧ QueueTables.collectable row cutoff = false := by
  rw [collect_items, List.mem_filter, Bool.not_eq_true']

/-- The pages of a job that stays all stay. -/
theorem mem_pages_collect (hkey : (a.jobs.syncJobs.map (·.syncJobId)).Nodup)
    (hjob : job ∈ a.jobs.syncJobs) (hkept : a.retentionSyncJobFilter cutoff job = false)
    (hid : page.syncJobId = job.syncJobId) :
    page ∈ (a.collect cutoff).2.jobs.syncJobPages ↔ page ∈ a.jobs.syncJobPages := by
  rw [collect_pages, List.mem_filter, and_iff_left_iff_imp]
  intro _
  rw [Bool.not_eq_true', List.contains_eq_mem, decide_eq_false_iff_not, List.mem_map, hid]
  rintro ⟨other, hother, hsame⟩
  rcases List.mem_filter.1 hother with ⟨hmem, hselected⟩
  rw [List.inj_on_of_nodup_map hkey hmem hjob hsame, hkept] at hselected
  cases hselected

/-- What is settled at the later cutoff after the early collection was settled before it. -/
theorem pageSettled_of_collect (hc : c₁ ≤ c₂)
    (h : (a.collect c₁).2.pageUnsettled c₂ page = false) : a.pageUnsettled c₂ page = false := by
  rcases pageUnsettled_eq_false_iff.1 h with ⟨hentries, hitems, hsome⟩
  refine pageUnsettled_eq_false_iff.2 ⟨hentries, ?_, hsome.imp_right ?_⟩
  · intro row hrow hkey
    cases hcollected : QueueTables.collectable row c₁ with
    | true => exact collectable_mono hc hcollected
    | false => exact hitems row (mem_items_collect.2 ⟨hrow, hcollected⟩) hkey
  · rintro ⟨row, hrow, hkey⟩
    exact ⟨row, (mem_items_collect.1 hrow).1, hkey⟩

/-- A settled page stays settled as long as one of its records does. -/
theorem pageSettled_collect (h : a.pageUnsettled c₂ page = false)
    (hrecord : (∃ e ∈ a.store.library.cacheEntries, e.cacheKey = page.cacheKey) ∨
      ∃ row ∈ a.store.queue.items, row.cacheKey = page.cacheKey ∧
        QueueTables.collectable row c₁ = false) :
    (a.collect c₁).2.pageUnsettled c₂ page = false := by
  rcases pageUnsettled_eq_false_iff.1 h with ⟨hentries, hitems, _⟩
  refine pageUnsettled_eq_false_iff.2 ⟨hentries, ?_, hrecord.imp_right ?_⟩
  · exact fun row hrow hkey => hitems row (mem_items_collect.1 hrow).1 hkey
  · rintro ⟨row, hrow, hkey, hkept⟩
    exact ⟨row, mem_items_collect.2 ⟨hrow, hkept⟩, hkey⟩

/-- A job is taken by the two collections exactly if it is taken by the later one alone, unless it
is stranded. -/
theorem selected_collect_iff (hkey : (a.jobs.syncJobs.map (·.syncJobId)).Nodup) (hc : c₁ ≤ c₂)
    (hjob : job ∈ a.jobs.syncJobs) :
    ((a.retentionSyncJobFilter c₁ job || (a.collect c₁).2.retentionSyncJobFilter c₂ job) =
      a.retentionSyncJobFilter c₂ job) ↔ ¬a.Stranded c₁ c₂ job := by
  cases hearly : a.retentionSyncJobFilter c₁ job with
  | true =>
      simp [Stranded, hearly, selected_mono hc hearly]
  | false =>
      rw [Bool.false_or, Bool.eq_iff_iff]
      constructor
      · rintro hiff ⟨hhandoff, hlate, _, page, hpage, hid, hentries, hitems⟩
        rcases retentionSyncJobFilter_iff.1 (hiff.2 hlate) with ⟨_, hterminal | ⟨_, _, hsettled⟩⟩
        · rw [SyncStatus.not_terminal_of_handoff hhandoff] at hterminal
          cases hterminal
        · have hmem := (mem_pages_collect hkey hjob hearly hid).2 hpage
          rcases (pageUnsettled_eq_false_iff.1 (hsettled page hmem hid)).2.2 with
            ⟨e, he, hsame⟩ | ⟨row, hrow, hsame⟩
          · exact hentries e he hsame
          · rcases mem_items_collect.1 hrow with ⟨hrow, hkept⟩
            rw [hitems row hrow hsame] at hkept
            cases hkept
      · intro hfine
        constructor
        · intro hafter
          rcases retentionSyncJobFilter_iff.1 hafter with ⟨hold, hstatus⟩
          refine retentionSyncJobFilter_iff.2 ⟨hold, hstatus.imp_right ?_⟩
          rintro ⟨hhandoff, ⟨page, hpage, hid⟩, hsettled⟩
          refine ⟨hhandoff, ⟨page, (mem_pages_collect hkey hjob hearly hid).1 hpage, hid⟩, ?_⟩
          intro page hpage hid
          have hmem := (mem_pages_collect hkey hjob hearly hid).2 hpage
          exact pageSettled_of_collect hc (hsettled page hmem hid)
        · intro hlate
          rcases retentionSyncJobFilter_iff.1 hlate with ⟨hold, hstatus⟩
          refine retentionSyncJobFilter_iff.2 ⟨hold, hstatus.imp_right ?_⟩
          rintro ⟨hhandoff, ⟨page, hpage, hid⟩, hsettled⟩
          refine ⟨hhandoff, ⟨page, (mem_pages_collect hkey hjob hearly hid).2 hpage, hid⟩, ?_⟩
          intro page hpage hid
          have hmem := (mem_pages_collect hkey hjob hearly hid).1 hpage
          refine pageSettled_collect (hsettled page hmem hid) ?_
          -- Otherwise the early collection took the only records of this page.
          by_contra hnone
          simp only [not_or, not_exists, not_and, Bool.not_eq_false] at hnone
          exact hfine ⟨hhandoff, hlate, hearly, page, hmem, hid, hnone.1, hnone.2⟩

/-! ## The theorem -/

/-- A collection is made of the rows it leaves. -/
theorem collect_eq (a : Archive) (cutoff : Int) :
    (a.collect cutoff).2 =
      { a with
        store :=
          { a.store with
            queue :=
              { a.store.queue with
                items := (a.collect cutoff).2.store.queue.items
                budgets := (a.collect cutoff).2.store.queue.budgets
                memberships := (a.collect cutoff).2.store.queue.memberships } }
        jobs := (a.collect cutoff).2.jobs
        events := (a.collect cutoff).2.events } := rfl

theorem filter_filter_of_imp {α : Type} {p q : α → Bool} {l : List α}
    (h : ∀ x ∈ l, q x = true → p x = true) : (l.filter p).filter q = l.filter q := by
  rw [List.filter_filter]
  refine List.filter_congr fun x hx => ?_
  cases hq : q x with
  | true => rw [h x hx hq]; rfl
  | false => rfl

/-- Once the same jobs are gone, everything is. -/
theorem collect_collect (hkey : (a.jobs.syncJobs.map (·.syncJobId)).Nodup) (hc : c₁ ≤ c₂)
    (hselected : ∀ job ∈ a.jobs.syncJobs,
      (a.retentionSyncJobFilter c₁ job || (a.collect c₁).2.retentionSyncJobFilter c₂ job) =
        a.retentionSyncJobFilter c₂ job) :
    ((a.collect c₁).2.collect c₂).2 = (a.collect c₂).2 := by
  have hkey₁ : ((a.collect c₁).2.jobs.syncJobs.map (·.syncJobId)).Nodup := by
    rw [collect_jobs a c₁ hkey]
    exact hkey.sublist (List.filter_sublist.map _)
  have hevents : ((a.collect c₁).2.collect c₂).2.events = (a.collect c₂).2.events := by
    rw [collect_events, collect_events, collect_events]
    refine filter_filter_of_imp fun event _ h => ?_
    simp only [Bool.not_eq_true', decide_eq_false_iff_not] at h ⊢
    exact fun hold => h (hold.trans_le hc)
  have hitems : ((a.collect c₁).2.collect c₂).2.store.queue.items =
      (a.collect c₂).2.store.queue.items := by
    rw [collect_items, collect_items, collect_items]
    refine filter_filter_of_imp fun row _ h => ?_
    rw [Bool.not_eq_true'] at h ⊢
    exact Bool.eq_false_iff.2 fun hold => Bool.eq_false_iff.1 h (collectable_mono hc hold)
  have hsub : ∀ row ∈ (a.collect c₂).2.store.queue.items,
      row ∈ (a.collect c₁).2.store.queue.items := by
    intro row hrow
    rw [← hitems] at hrow
    exact (mem_items_collect.1 hrow).1
  have hjobs : ((a.collect c₁).2.collect c₂).2.jobs.syncJobs =
      (a.collect c₂).2.jobs.syncJobs := by
    rw [collect_jobs _ c₂ hkey₁, collect_jobs a c₁ hkey, collect_jobs a c₂ hkey,
      List.filter_filter]
    refine List.filter_congr fun job hjob => ?_
    rw [← hselected job hjob, Bool.not_or, Bool.and_comm]
  have hpages : ((a.collect c₁).2.collect c₂).2.jobs.syncJobPages =
      (a.collect c₂).2.jobs.syncJobPages := by
    rw [collect_pages, collect_pages, collect_pages, List.filter_filter]
    refine List.filter_congr fun page _ => ?_
    rw [Bool.and_comm, ← Bool.not_or, Bool.not_inj_iff, Bool.eq_iff_iff, Bool.or_eq_true]
    simp only [List.contains_eq_mem, decide_eq_true_eq, List.mem_map, List.mem_filter,
      collect_jobs a c₁ hkey, Bool.not_eq_true']
    constructor
    · rintro (⟨job, ⟨hjob, h⟩, hid⟩ | ⟨job, ⟨⟨hjob, _⟩, h⟩, hid⟩)
      · exact ⟨job, ⟨hjob, by rw [← hselected job hjob, h]; rfl⟩, hid⟩
      · exact ⟨job, ⟨hjob, by rw [← hselected job hjob, h, Bool.or_true]⟩, hid⟩
    · rintro ⟨job, ⟨hjob, h⟩, hid⟩
      rw [← hselected job hjob, Bool.or_eq_true] at h
      cases hearly : a.retentionSyncJobFilter c₁ job with
      | true => exact Or.inl ⟨job, ⟨hjob, hearly⟩, hid⟩
      | false => exact Or.inr ⟨job, ⟨⟨hjob, hearly⟩, h.resolve_left (by simp [hearly])⟩, hid⟩
  have hmemberships : ((a.collect c₁).2.collect c₂).2.store.queue.memberships =
      (a.collect c₂).2.store.queue.memberships := by
    rw [collect_memberships, hitems, collect_memberships, collect_memberships]
    refine filter_filter_of_imp fun m _ h => ?_
    rcases List.any_eq_true.1 h with ⟨row, hrow, hid⟩
    exact List.any_eq_true.2 ⟨row, hsub row hrow, hid⟩
  have hbudgets : ((a.collect c₁).2.collect c₂).2.store.queue.budgets =
      (a.collect c₂).2.store.queue.budgets := by
    rw [collect_budgets, collect_budgets, collect_budgets]
    have hrefers : ∀ budgetId, ((a.collect c₁).2.collect c₂).2.refersTo budgetId =
        (a.collect c₂).2.refersTo budgetId := by
      intro budgetId
      unfold refersTo
      rw [hitems, hmemberships, hjobs]
    simp only [hrefers]
    refine filter_filter_of_imp fun budget _ h => ?_
    rcases refersTo_iff.1 h with ⟨row, hrow, href⟩ | ⟨m, hm, href⟩ | ⟨job, hjob, href⟩
    · exact refersTo_iff.2 (Or.inl ⟨row, hsub row hrow, href⟩)
    · rw [← hmemberships, collect_memberships] at hm
      exact refersTo_iff.2 (Or.inr (Or.inl ⟨m, (List.mem_filter.1 hm).1, href⟩))
    · rw [← hjobs, collect_jobs _ c₂ hkey₁] at hjob
      exact refersTo_iff.2 (Or.inr (Or.inr ⟨job, (List.mem_filter.1 hjob).1, href⟩))
  have htables : ((a.collect c₁).2.collect c₂).2.jobs = (a.collect c₂).2.jobs :=
    congrArg₂ JobTables.mk hjobs hpages
  rw [collect_eq (a.collect c₁).2 c₂, collect_eq a c₂, hevents, hitems, htables, hmemberships,
    hbudgets]
  rfl

/-- An early collection is absorbed by a later one exactly if it strands no job. -/
theorem absorbed_iff (hkey : (a.jobs.syncJobs.map (·.syncJobId)).Nodup) (hc : c₁ ≤ c₂) :
    ((a.collect c₁).2.collect c₂).2 = (a.collect c₂).2 ↔
      ∀ job ∈ a.jobs.syncJobs, ¬a.Stranded c₁ c₂ job := by
  have hkey₁ : ((a.collect c₁).2.jobs.syncJobs.map (·.syncJobId)).Nodup := by
    rw [collect_jobs a c₁ hkey]
    exact hkey.sublist (List.filter_sublist.map _)
  constructor
  · intro heq job hjob
    refine (selected_collect_iff hkey hc hjob).1 ?_
    have hsame : job ∈ ((a.collect c₁).2.collect c₂).2.jobs.syncJobs ↔
        job ∈ (a.collect c₂).2.jobs.syncJobs := by
      rw [heq]
    rw [collect_jobs _ c₂ hkey₁, collect_jobs a c₂ hkey, collect_jobs a c₁ hkey,
      List.mem_filter, List.mem_filter, List.mem_filter] at hsame
    simp only [hjob, true_and, Bool.not_eq_true', ← Bool.or_eq_false_iff] at hsame
    rwa [← Bool.not_inj_iff, Bool.eq_iff_iff, Bool.not_eq_true', Bool.not_eq_true']
  · intro hfine
    exact collect_collect hkey hc fun job hjob =>
      (selected_collect_iff hkey hc hjob).2 (hfine job hjob)

end Archive
end Huldra
