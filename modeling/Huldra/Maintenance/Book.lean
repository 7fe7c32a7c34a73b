import Huldra.Retention.EarlyCollection

/-!
# Book — the jobs that a maintenance call opens and ends

A call of `sync_windows` opens a job for each of its windows and ends it somewhere along its way.
The book of a call keeps both lists: what the operations of the call do to it is proved part by
part, and what it says of the rows holds whatever the others do.
-/

namespace Huldra

open Process (Prog Amid Move Surroundings)

/-- The job has ended: with a terminal status, or handed to a worker. -/
def SyncJobRow.Closed (job : SyncJobRow) : Prop :=
  job.completedAt.isSome = true ∧ (job.status.terminal || job.status.handoff) = true

instance (job : SyncJobRow) : Decidable job.Closed :=
  inferInstanceAs (Decidable (_ ∧ _))

/-- One process on the archive, among others.  `theirs` are the jobs that the others have opened:
they end no other job, and this process does not open one of them. -/
def Archive.among (theirs : Uuid → Prop) : Surroundings archive Archive where
  does o t r a a' := Archive.Performed o t r a a' ∧
    match o, r with
    | .job (.createSyncJob ..), .ok syncJobId => ¬theirs syncJobId
    | _, _ => True
  others t a a' := ∃ o r, Archive.Performed o t r a a' ∧
    ∀ completion timestamp, o = .job (.completeSyncJob completion timestamp) →
      theirs completion.syncJobId


namespace Maintenance

/-! ## The jobs of the call -/

/-- The job that a move opens. -/
def opened : Move archive Archive → Option Uuid
  | .own (.job (.createSyncJob ..)) _ (.ok syncJobId) _ _ => some syncJobId
  | _ => none

def jobsOf (moves : List (Move archive Archive)) : List Uuid :=
  moves.filterMap opened

end Maintenance

/-! ## What an operation does to the rows -/

namespace Archive

variable {a : Archive} {job : SyncJobRow}

/-- A job that is there after an operation was there before, is new, or has just been ended. -/
theorem mem_syncJobs_exec (o : ArchiveOp) (t : Int) (input : Input)
    (h : job ∈ (exec o t input a).2.jobs.syncJobs) :
    job ∈ a.jobs.syncJobs ∨ job.syncJobId = a.store.nextUuid ∨
      ∃ c timestamp row, o = .job (.completeSyncJob c timestamp) ∧ row ∈ a.jobs.syncJobs ∧
        row.syncJobId = c.syncJobId ∧ job = row.complete c timestamp := by
  cases o with
  | store o => exact Or.inl h
  | job o =>
      cases o with
      | createSyncJob request mode budgetId timestamp =>
          rcases List.mem_append.1 h with hold | hnew
          · exact Or.inl hold
          · rw [List.mem_singleton.1 hnew]
            exact Or.inr (Or.inl rfl)
      | recordSyncJobPage write timestamp =>
          refine Or.inl ?_
          simp only [exec, execJob, record, JobTables.recordSyncJobPage] at h
          split at h
          · exact h
          · split at h <;> exact h
      | deleteSyncJobFollowupPages => exact Or.inl h
      | completeSyncJob c timestamp =>
          rcases List.mem_map.1 h with ⟨row, hrow, rfl⟩
          by_cases hid : row.syncJobId = c.syncJobId
          · rw [if_pos hid]
            exact Or.inr (Or.inr ⟨c, timestamp, row, rfl, hrow, hid, rfl⟩)
          · rw [if_neg hid]
            exact Or.inl hrow
      | getUpstreamRequestBudgetRequestsStarted => exact Or.inl h
      | gc cutoff dryRun =>
          cases dryRun with
          | true => exact Or.inl h
          | false => exact Or.inl (List.mem_of_mem_filter h)

/-- A running job stays until it is ended. -/
theorem mem_syncJobs_of_running (o : ArchiveOp) (t : Int) (input : Input) (hkeyed : a.JobsKeyed)
    (hjob : job ∈ a.jobs.syncJobs) (hrunning : job.status = .running) :
    job ∈ (exec o t input a).2.jobs.syncJobs ∨
      ∃ c timestamp, o = .job (.completeSyncJob c timestamp) ∧ c.syncJobId = job.syncJobId := by
  cases o with
  | store o => exact Or.inl hjob
  | job o =>
      cases o with
      | createSyncJob => exact Or.inl (List.mem_append_left _ hjob)
      | recordSyncJobPage write timestamp =>
          refine Or.inl ?_
          simp only [exec, execJob, record, JobTables.recordSyncJobPage]
          split
          · exact hjob
          · split <;> exact hjob
      | deleteSyncJobFollowupPages => exact Or.inl hjob
      | completeSyncJob c timestamp =>
          by_cases hid : job.syncJobId = c.syncJobId
          · exact Or.inr ⟨c, timestamp, rfl, hid.symm⟩
          · refine Or.inl (List.mem_map.2 ⟨job, hjob, ?_⟩)
            rw [if_neg hid]
      | getUpstreamRequestBudgetRequestsStarted => exact Or.inl hjob
      | gc cutoff dryRun =>
          cases dryRun with
          | true => exact Or.inl hjob
          | false =>
              have hkept : job ∈ (a.collect cutoff).2.jobs.syncJobs := by
                rw [collect_jobs a cutoff hkeyed.nodup]
                refine List.mem_filter.2 ⟨hjob, ?_⟩
                rw [not_selected_of_running a hrunning]
                rfl
              exact Or.inl hkept

theorem Performed.keyed {o : ArchiveOp} {t : Int} {r : Except Exn o.Res} {a a' : Archive}
    (h : Performed o t r a a') (hkeyed : a.JobsKeyed) : a'.JobsKeyed := by
  rcases h.state with rfl | ⟨input, rfl⟩
  · exact hkeyed
  · exact jobsKeyed_exec o t input hkeyed

theorem Performed.nextUuid_le {o : ArchiveOp} {t : Int} {r : Except Exn o.Res} {a a' : Archive}
    (h : Performed o t r a a') : a.store.nextUuid ≤ a'.store.nextUuid := by
  rcases h.state with rfl | ⟨input, rfl⟩
  · exact le_rfl
  · cases o with
    | store o => exact exec_nextUuid_le o t input a.store
    | job o =>
        cases o with
        | createSyncJob => exact Nat.le_succ _
        | gc cutoff dryRun => cases dryRun <;> exact le_rfl
        | _ => exact le_rfl

end Archive


/-! ## The book of the call -/

namespace Maintenance

/-- The jobs that a call has opened, and those that it has ended. -/
structure JobBook where
  created : List Uuid := []
  ended : List Uuid := []

namespace JobBook

/-- One more job is ended. -/
def close (book : JobBook) (syncJobId : Uuid) : JobBook :=
  { book with ended := syncJobId :: book.ended }

/-- The call ends jobs of its own, and with a status that says so. -/
def Allows (book : JobBook) : ArchiveOp → Prop
  | .job (.completeSyncJob c _) =>
      c.syncJobId ∈ book.created ∧ (c.status.terminal || c.status.handoff) = true
  | _ => True

/-- Where the answer to an operation leads.  A job whose ending raises may be ended or not. -/
def Next (book : JobBook) (o : ArchiveOp) (r : Except Exn o.Res) (book' : JobBook) : Prop :=
  match o, r with
  | .job (.createSyncJob ..), .ok syncJobId =>
      book' = { book with created := book.created ++ [syncJobId] }
  | .job (.completeSyncJob c _), .ok _ => book' = book.close c.syncJobId
  | .job (.completeSyncJob c _), .error _ => book' = book ∨ book' = book.close c.syncJobId
  | _, _ => book' = book

end JobBook

def bookkeeping : Process.Discipline archive JobBook where
  allow := JobBook.Allows
  next := JobBook.Next

/-- What the book says of the archive. -/
structure Stands (theirs : Uuid → Prop) (book : JobBook) (a : Archive) : Prop where
  keyed : a.JobsKeyed
  mine : ∀ id ∈ book.created, ¬theirs id ∧ id < a.store.nextUuid
  nodup : book.created.Nodup
  ended_sub : ∀ id ∈ book.ended, id ∈ book.created
  closed : ∀ job ∈ a.jobs.syncJobs, job.syncJobId ∈ book.ended → job.Closed
  running : ∀ id ∈ book.created, id ∉ book.ended →
    ∃ job ∈ a.jobs.syncJobs, job.syncJobId = id ∧ job.status = .running

theorem stands_nil {theirs : Uuid → Prop} {a : Archive} (hkeyed : a.JobsKeyed) :
    Stands theirs {} a where
  keyed := hkeyed
  mine _ hid := absurd hid List.not_mem_nil
  nodup := List.nodup_nil
  ended_sub _ hid := absurd hid List.not_mem_nil
  closed _ _ hid := absurd hid List.not_mem_nil
  running _ hid := absurd hid List.not_mem_nil

namespace Stands

variable {theirs : Uuid → Prop} {book : JobBook} {a a' : Archive} {o : ArchiveOp} {t : Int}
  {r : Except Exn o.Res}

/-- Whoever ends no job of the call leaves what the book says. -/
theorem others (h : Stands theirs book a) (hperf : Archive.Performed o t r a a')
    (hforeign : ∀ c timestamp, o = .job (.completeSyncJob c timestamp) →
      c.syncJobId ∉ book.created) : Stands theirs book a' := by
  have hnext := hperf.nextUuid_le
  -- The rows under the call's identifiers are those that were there.
  have hold : ∀ job ∈ a'.jobs.syncJobs, job.syncJobId ∈ book.created → job ∈ a.jobs.syncJobs := by
    intro job hjob hmine
    rcases hperf.state with rfl | ⟨input, rfl⟩
    · exact hjob
    · rcases Archive.mem_syncJobs_exec o t input hjob with hmem | hnew |
        ⟨c, timestamp, row, rfl, _, hid, rfl⟩
      · exact hmem
      · exact absurd hnew (h.mine _ hmine).2.ne
      · have hrow : (row.complete c timestamp).syncJobId = c.syncJobId := hid
        rw [hrow] at hmine
        exact absurd hmine (hforeign c timestamp rfl)
  refine ⟨hperf.keyed h.keyed, ?_, h.nodup, h.ended_sub, ?_, ?_⟩
  · intro id hid
    exact ⟨(h.mine id hid).1, (h.mine id hid).2.trans_le hnext⟩
  · intro job hjob hended
    exact h.closed job (hold job hjob (h.ended_sub _ hended)) hended
  · intro id hid hopen
    rcases h.running id hid hopen with ⟨job, hjob, rfl, hrunning⟩
    rcases hperf.state with rfl | ⟨input, rfl⟩
    · exact ⟨job, hjob, rfl, hrunning⟩
    · rcases Archive.mem_syncJobs_of_running o t input h.keyed hjob hrunning with hkept |
        ⟨c, timestamp, ho, hc⟩
      · exact ⟨job, hkept, rfl, hrunning⟩
      · rw [← hc] at hid
        exact absurd hid (hforeign c timestamp ho)

/-- The call opens a job. -/
theorem create (h : Stands theirs book a) {request : ArxivRequest} {mode : LegacySyncMode}
    {budgetId : Option Uuid} {timestamp : Int} {syncJobId : Uuid}
    (hperf : Archive.Performed (.job (.createSyncJob request mode budgetId timestamp)) t
      (.ok syncJobId) a a') (hmine : ¬theirs syncJobId) :
    Stands theirs { book with created := book.created ++ [syncJobId] } a' := by
  have hstands := h.others hperf (by rintro c timestamp' ⟨⟩)
  rcases hperf.of_ok with ⟨input, _, hexec⟩
  cases hexec
  refine ⟨hstands.keyed, ?_, ?_, ?_, hstands.closed, ?_⟩
  · intro id hid
    rcases List.mem_append.1 hid with hid | hid
    · exact hstands.mine id hid
    · rw [List.mem_singleton.1 hid]
      exact ⟨hmine, Nat.lt_succ_self _⟩
  · refine List.nodup_append.2 ⟨h.nodup, List.nodup_singleton _, ?_⟩
    intro id hid new hnew
    rw [List.mem_singleton.1 hnew]
    exact (h.mine id hid).2.ne
  · intro id hid
    exact List.mem_append_left _ (h.ended_sub id hid)
  · intro id hid hopen
    rcases List.mem_append.1 hid with hid | hid
    · exact hstands.running id hid hopen
    · rw [List.mem_singleton.1 hid]
      exact ⟨_, List.mem_append_right _ (List.mem_singleton.2 rfl), rfl, rfl⟩

/-- The call ends a job. -/
theorem close (h : Stands theirs book a) {c : SyncJobCompletion} {timestamp : Int} {input : Input}
    (hallow : book.Allows (.job (.completeSyncJob c timestamp))) :
    Stands theirs (book.close c.syncJobId)
      (Archive.exec (.job (.completeSyncJob c timestamp)) t input a).2 := by
  refine ⟨Archive.jobsKeyed_exec _ t input h.keyed, h.mine, h.nodup, ?_, ?_, ?_⟩
  · intro id hid
    rcases List.mem_cons.1 hid with rfl | hid
    · exact hallow.1
    · exact h.ended_sub id hid
  · intro job hjob hended
    rcases List.mem_map.1 hjob with ⟨row, hrow, rfl⟩
    by_cases hid : row.syncJobId = c.syncJobId
    · rw [if_pos hid]
      exact ⟨rfl, hallow.2⟩
    · rw [if_neg hid] at hended ⊢
      rcases List.mem_cons.1 hended with heq | hended
      · exact absurd heq hid
      · exact h.closed row hrow hended
  · intro id hid hopen
    have hne : id ≠ c.syncJobId := fun heq => hopen (heq ▸ List.mem_cons_self)
    rcases h.running id hid (fun hended => hopen (List.mem_cons_of_mem _ hended)) with
      ⟨job, hjob, rfl, hrunning⟩
    refine ⟨job, List.mem_map.2 ⟨job, hjob, ?_⟩, rfl, hrunning⟩
    rw [if_neg hne]

end Stands

/-- The book follows the runs of the call. -/
theorem tracks_bookkeeping (theirs : Uuid → Prop) :
    Process.Tracks (Archive.among theirs) bookkeeping fun book past a _ =>
      book.created = jobsOf past ∧ Stands theirs book a where
  own := by
    rintro book past a t o t' r a' ⟨hcreated, hstands⟩ hallow _ ⟨hperf, hmine⟩
    cases o with
    | store o =>
        refine ⟨book, rfl, by simp [hcreated, jobsOf, opened], hstands.others hperf ?_⟩
        rintro c timestamp ⟨⟩
    | job o =>
        cases o with
        | createSyncJob request mode budgetId timestamp =>
            cases r with
            | ok syncJobId =>
                exact ⟨_, rfl, by simp [hcreated, jobsOf, opened], hstands.create hperf hmine⟩
            | error e =>
                refine ⟨book, rfl, by simp [hcreated, jobsOf, opened], hstands.others hperf ?_⟩
                rintro c timestamp ⟨⟩
        | completeSyncJob c timestamp =>
            cases r with
            | ok _ =>
                rcases hperf.of_ok with ⟨input, _, hexec⟩
                have hclose := @Stands.close theirs book a t' hstands c timestamp input hallow
                rw [hexec] at hclose
                exact ⟨_, rfl, by simp [hcreated, jobsOf, opened, JobBook.close], hclose⟩
            | error e =>
                rcases hperf.state with rfl | ⟨input, rfl⟩
                · exact ⟨book, Or.inl rfl, by simp [hcreated, jobsOf, opened], hstands⟩
                · exact ⟨_, Or.inr rfl, by simp [hcreated, jobsOf, opened, JobBook.close],
                    hstands.close hallow⟩
        | _ =>
            refine ⟨book, rfl, by simp [hcreated, jobsOf, opened], hstands.others hperf ?_⟩
            rintro c timestamp ⟨⟩
  other := by
    rintro book past a t t' a' ⟨hcreated, hstands⟩ _ ⟨o, r, hperf, htheirs⟩
    refine ⟨by simp [hcreated, jobsOf, opened], hstands.others hperf ?_⟩
    intro c timestamp ho hmine
    exact (hstands.mine _ hmine).1 (htheirs c timestamp ho)

/-! ## What the parts of the call do to the book -/

/-- Operations that open no job and end none. -/
def Quiet : ArchiveOp → Prop
  | .job (.createSyncJob ..) | .job (.completeSyncJob ..) => False
  | _ => True

theorem next_of_quiet {book book' : JobBook} {o : ArchiveOp} {r : Except Exn o.Res}
    (ho : Quiet o) (h : book.Next o r book') : book' = book := by
  cases o with
  | store o => exact h
  | job o =>
      cases o with
      | createSyncJob => exact ho.elim
      | completeSyncJob => exact ho.elim
      | _ => exact h

section Books

variable {β γ : Type} {book : JobBook}

/-- What the call returns meets `Q`; where it raises, nothing is said. -/
def Leads (p : ArchiveProgram β) (book : JobBook) (Q : JobBook → β → Prop) : Prop :=
  p.wp bookkeeping Q (fun _ _ => True) book

theorem Leads.ret {Q : JobBook → β → Prop} {b : β} (h : Q book b) :
    Leads (.ret b : ArchiveProgram β) book Q := h

theorem Leads.raise {Q : JobBook → β → Prop} (e : Exn) :
    Leads (.raise e : ArchiveProgram β) book Q := trivial

theorem Leads.mono {Q Q' : JobBook → β → Prop} {p : ArchiveProgram β} (h : Leads p book Q)
    (hQ : ∀ book' b, Q book' b → Q' book' b) : Leads p book Q' :=
  Prog.wp_mono hQ (fun _ _ h => h) p book h

theorem Leads.bind {Q : JobBook → β → Prop} {Q' : JobBook → γ → Prop} {p : ArchiveProgram β}
    {f : β → ArchiveProgram γ} (h : Leads p book Q)
    (hf : ∀ book' b, Q book' b → Leads (f b) book' Q') : Leads (p >>= f) book Q' :=
  (Prog.wp_bind ..).2 (Prog.wp_mono hf (fun _ _ h => h) p book h)

/-- A quiet part leaves the book as it is. -/
theorem Leads.quiet {p : ArchiveProgram β} (h : p.AllOps Quiet) :
    Leads p book fun book' _ => book' = book := by
  have hstep : ∀ o, Quiet o → ∀ x, x = book → bookkeeping.allow x o ∧
      ∀ r x', bookkeeping.next x o r x' → x' = book := by
    rintro o ho x rfl
    refine ⟨?_, fun r x' hnext => next_of_quiet ho hnext⟩
    cases o with
    | store o => trivial
    | job o =>
        cases o with
        | completeSyncJob => exact ho.elim
        | _ => trivial
  exact Prog.wp_mono (fun _ _ h => h) (fun _ _ _ => trivial) p book
    (Prog.AllOps.wp hstep h book rfl)

theorem Leads.bind_quiet {Q : JobBook → γ → Prop} {p : ArchiveProgram β}
    {f : β → ArchiveProgram γ} (h : p.AllOps Quiet) (hf : ∀ b, Leads (f b) book Q) :
    Leads (p >>= f) book Q := by
  refine (Leads.quiet h).bind ?_
  rintro _ b rfl
  exact hf b

theorem quiet_embed (p : Program β) : (embed p).AllOps Quiet := by
  induction p with
  | ret b => trivial
  | raise e => trivial
  | op o k ih => exact ⟨trivial, ih⟩

theorem quiet_recordSyncJobPage (write : SyncJobPageWrite) :
    (recordSyncJobPage write).AllOps Quiet :=
  .bind (quiet_embed _) fun _ => .call trivial

theorem quiet_refreshSyncJobPage (syncJobId : Uuid) (request : ArxivRequest)
    (cacheKey : CacheKey) : (refreshSyncJobPageFromCache syncJobId request cacheKey).AllOps Quiet :=
  .bind (quiet_embed _) fun _ => .bind (quiet_recordSyncJobPage _) fun _ => .ret _

theorem quiet_getTargetItem (target : MaintenanceTarget) :
    (getTargetItem target).AllOps Quiet := by
  unfold getTargetItem
  split
  · exact quiet_embed _
  · exact .ret _

theorem leads_createSyncJob (request : ArxivRequest) (mode : LegacySyncMode)
    (budgetId : Option Uuid) :
    Leads (createSyncJob request mode budgetId) book fun book' syncJobId =>
      book' = { book with created := book.created ++ [syncJobId] } := by
  refine Leads.bind_quiet (quiet_embed _) fun timestamp => (Prog.wp_call ..).2 ⟨trivial, ?_, ?_⟩
  · intro syncJobId book' h
    exact h
  · intro _ _ _
    trivial

theorem leads_completeSyncJob {completion : SyncJobCompletion}
    (hmine : completion.syncJobId ∈ book.created)
    (hstatus : (completion.status.terminal || completion.status.handoff) = true) :
    Leads (completeSyncJob completion) book fun book' _ =>
      book' = book.close completion.syncJobId := by
  refine Leads.bind_quiet (quiet_embed _) fun timestamp =>
    (Prog.wp_call ..).2 ⟨⟨hmine, hstatus⟩, ?_, ?_⟩
  · intro _ book' h
    exact h
  · intro _ _ _
    trivial

end Books

end Maintenance
end Huldra
