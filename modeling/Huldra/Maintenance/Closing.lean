import Huldra.Maintenance.Windows

/-!
# Closing — how the jobs of a maintenance call end

In the mode `slice` a job ends in the last pass over the windows, if what that pass finds there is
settled: a call that waited leaves the job of a window that is still pending open, and so does any
call that finds nothing of a window.
-/

namespace Huldra

open Process (Prog Amid Move)

namespace Maintenance

/-! ## What the last pass finds -/

/-- What the last pass has read of a window: the window is readable, or its entry says why it is
not, or its queue item is over, has been put off by the limiter, or is left to the workers.  Of a
window without a queue item there is an entry. -/
def FinalReading.Settled (wait : Bool) (reading : FinalReading) : Prop :=
  reading.readable.isSome = true ∨
    (∃ entry, reading.cacheEntry = some entry ∧ entry.status ≠ .completed) ∨
    match reading.queueItem with
    | none => reading.cacheEntry.isSome = true
    | some item =>
        item.status.pending = true → wait = true → item.status = .delayed ∧
          (item.errorCategory = some "cooldown" ∨ item.errorCategory = some "rate_limited")

/-- The last pass over the windows, one after the other, and what it reads of each. -/
inductive LastPass (d : Deployment) (call : SyncWindowsCall) (theirs : Uuid → Prop) :
    List MaintenanceTarget → MaintenanceResult → Archive → Int → List (Move archive Archive) →
      List FinalReading → Archive → Int → Prop where
  | nil {early result : MaintenanceResult} {a a' : Archive} {t t' : Int}
      {moves : List (Move archive Archive)} :
      Amid (Archive.among theirs) (finalizeMaintenanceResult d call.mode (!call.wait) [] early) a t
        moves (.ok result) a' t' →
      LastPass d call theirs [] early a t moves [] a' t'
  | cons {target : MaintenanceTarget} {rest : List MaintenanceTarget}
      {early result : MaintenanceResult} {a a₁ a₂ a' : Archive} {t t₁ t₂ t' : Int}
      {look settle moves : List (Move archive Archive)} {reading : FinalReading}
      {readings : List FinalReading} :
      Amid (Archive.among theirs) (readTarget d target) a t look (.ok reading) a₁ t₁ →
      Amid (Archive.among theirs) (finalizeTarget d call.mode (!call.wait) target early) a t
        (look ++ settle) (.ok result) a₂ t₂ →
      LastPass d call theirs rest result a₂ t₂ moves readings a' t' →
      LastPass d call theirs (target :: rest) early a t (look ++ settle ++ moves)
        (reading :: readings) a' t'

/-- What the last pass of this run of the call has read. -/
def FoundLast (d : Deployment) (call : SyncWindowsCall) (rounds : Nat) (theirs : Uuid → Prop)
    (a : Archive) (t : Int) (moves : List (Move archive Archive)) (readings : List FinalReading)
    (a' : Archive) (t' : Int) : Prop :=
  ∃ before last drained a₁ t₁, moves = before ++ last ∧
    Amid (Archive.among theirs) (windowsDrained d call rounds) a t before (.ok drained) a₁ t₁ ∧
    LastPass d call theirs drained.1 drained.2 a₁ t₁ last readings a' t'

section Books

variable {book : JobBook}

/-! ## The last pass -/

theorem closesSlice_queueItem (wait : Bool) (item : QueueItem) :
    closesSlice (!wait) (rawStatusFromQueueItem item) = true ↔
      (item.status.pending = true → wait = true → item.status = .delayed ∧
        (item.errorCategory = some "cooldown" ∨ item.errorCategory = some "rate_limited")) := by
  unfold rawStatusFromQueueItem
  split
  · rename_i hcooldown
    simp [closesSlice, SyncStatus.terminalRaw, hcooldown]
  · rename_i hcooldown
    split
    · rename_i hlimited
      simp [closesSlice, SyncStatus.terminalRaw, hlimited]
    · rename_i hlimited
      cases hstatus : item.status with
      | delayed =>
          have hother : ¬(item.errorCategory = some "cooldown" ∨
              item.errorCategory = some "rate_limited") := by
            rintro (h | h)
            · exact hcooldown ⟨hstatus, h⟩
            · exact hlimited ⟨hstatus, h⟩
          simp [closesSlice, SyncStatus.terminalRaw, SyncStatus.handoff, SyncStatus.ofQueue,
            RequestStatus.pending, hother]
      | _ =>
          simp [closesSlice, SyncStatus.terminalRaw, SyncStatus.handoff, SyncStatus.ofQueue,
            RequestStatus.pending]

/-- A slice is ended in the last pass exactly if its window is settled. -/
theorem closesSlice_iff (wait : Bool) (reading : FinalReading) :
    closesSlice (!wait) (rawStatusOf reading) = true ↔ reading.Settled wait := by
  rcases reading with ⟨readable, entry, item, serving⟩
  cases readable with
  | some readable => simp [rawStatusOf, closesSlice, SyncStatus.terminalRaw, FinalReading.Settled]
  | none =>
      cases entry with
      | none =>
          cases item with
          | none => simp [rawStatusOf, closesSlice, SyncStatus.terminalRaw, SyncStatus.handoff,
              FinalReading.Settled]
          | some item =>
              have hitem := closesSlice_queueItem wait item
              simpa [rawStatusOf, FinalReading.Settled] using hitem
      | some entry =>
          cases hstatus : entry.status with
          | failed => simp [rawStatusOf, hstatus, closesSlice, SyncStatus.terminalRaw,
              SyncStatus.ofCache, FinalReading.Settled]
          | rateLimited => simp [rawStatusOf, hstatus, closesSlice, SyncStatus.terminalRaw,
              SyncStatus.ofCache, FinalReading.Settled]
          | completed =>
              cases item with
              | none => simp [rawStatusOf, hstatus, unreadableCompletedRawStatus, closesSlice,
                  SyncStatus.terminalRaw, FinalReading.Settled]
              | some item =>
                  have hitem := closesSlice_queueItem wait item
                  by_cases hcompleted : rawStatusFromQueueItem item = .completed
                  · have hclosed : closesSlice (!wait) (rawStatusFromQueueItem item) = true := by
                      simp [hcompleted, closesSlice, SyncStatus.terminalRaw]
                    have hsettled := hitem.1 hclosed
                    simp only [rawStatusOf, hstatus, unreadableCompletedRawStatus,
                      Option.map_some, hcompleted, if_true, FinalReading.Settled]
                    simpa [closesSlice, SyncStatus.terminalRaw, hstatus] using hsettled
                  · simpa [rawStatusOf, hstatus, unreadableCompletedRawStatus, hcompleted,
                      FinalReading.Settled] using hitem

theorem quiet_readTarget (d : Deployment) (target : MaintenanceTarget) :
    (readTarget d target).AllOps Quiet := by
  refine .bind (quiet_embed _) fun readable => .bind (quiet_embed _) fun entry =>
    .bind (quiet_getTargetItem target) fun item => ?_
  split
  · exact .ret _
  · exact .bind (quiet_embed _) fun serving => .ret _

theorem leads_settleStatus (mode : LegacySyncMode) (target : MaintenanceTarget)
    (reading : FinalReading) (result : MaintenanceResult) :
    Leads (settleStatus mode target reading result) book fun book' out => book' = book ∧
      out.2.1.syncJobId = target.syncJobId ∧ (mode = .slice → out.1 = rawStatusOf reading) := by
  unfold settleStatus
  split
  · rename_i hmode
    refine Leads.ret ⟨rfl, rfl, ?_⟩
    intro hslice
    rw [hmode.1] at hslice
    cases hslice
  · split
    · dsimp only
      split
      · exact Leads.bind_quiet (quiet_refreshSyncJobPage ..) fun _ =>
          Leads.ret ⟨rfl, rfl, fun _ => rfl⟩
      · exact Leads.ret ⟨rfl, rfl, fun _ => rfl⟩
    · rename_i readable hreadable
      have hraw : SyncStatus.completed = rawStatusOf reading := by
        simp [rawStatusOf, hreadable]
      dsimp only
      split
      · exact Leads.bind_quiet (quiet_refreshSyncJobPage ..) fun _ =>
          Leads.ret ⟨rfl, rfl, fun _ => hraw⟩
      · exact Leads.ret ⟨rfl, rfl, fun _ => hraw⟩

theorem quiet_countCooldown (reading : FinalReading) (result : MaintenanceResult) :
    (countCooldown reading result).AllOps Quiet := by
  unfold countCooldown
  dsimp only
  split
  · exact .bind (quiet_embed _) fun now => .ret _
  · split
    · split
      · exact .ret _
      · exact .bind (quiet_embed _) fun now => .ret _
    · exact .ret _
  · exact .ret _

end Books

section LastPass

variable {d : Deployment} {call : SyncWindowsCall} {theirs : Uuid → Prop} {a a' : Archive}
  {t t' : Int}

/-- What is so of every path holds of the run among the others. -/
theorem Leads.post {β : Type} {p : ArchiveProgram β} {b : β} {book : JobBook}
    {Q : JobBook → β → Prop} {past moves : List (Move archive Archive)} (h : Leads p book Q)
    (hrun : Amid (Archive.among theirs) p a t moves (.ok b) a' t')
    (hstands : book.created = jobsOf past ∧ Stands theirs book a) :
    ∃ book', (book'.created = jobsOf (past ++ moves) ∧ Stands theirs book' a') ∧ Q book' b :=
  (tracks_bookkeeping theirs).post hrun book past h hstands

/-- One window of the last pass: with slices, its job is ended if what was read is settled. -/
theorem book_finalizeTarget {target : MaintenanceTarget} {early result : MaintenanceResult}
    {look settle : List (Move archive Archive)} {reading : FinalReading} {a₁ : Archive} {t₁ : Int}
    (hread : Amid (Archive.among theirs) (readTarget d target) a t look (.ok reading) a₁ t₁)
    (hrun : Amid (Archive.among theirs) (finalizeTarget d call.mode (!call.wait) target early) a t
      (look ++ settle) (.ok result) a' t') {book : JobBook} {past : List (Move archive Archive)}
    (hstands : book.created = jobsOf past ∧ Stands theirs book a)
    (hmine : target.syncJobId ∈ book.created) :
    ∃ book', (book'.created = jobsOf (past ++ look ++ settle) ∧ Stands theirs book' a') ∧
      ((call.mode = .slice ∧ reading.Settled call.wait ∧ book' = book.close target.syncJobId) ∨
        (¬(call.mode = .slice ∧ reading.Settled call.wait) ∧ book' = book)) := by
  rcases (Leads.quiet (quiet_readTarget d target)).post hread hstands with
    ⟨book₁, hstands₁, hbook⟩
  rw [hbook] at hstands₁
  refine Leads.post (Q := fun book' _ =>
    (call.mode = .slice ∧ reading.Settled call.wait ∧ book' = book.close target.syncJobId) ∨
      (¬(call.mode = .slice ∧ reading.Settled call.wait) ∧ book' = book)) ?_
    (hread.after_first rfl hrun) hstands₁
  refine (leads_settleStatus call.mode target reading early).bind ?_
  rintro _ ⟨rawStatus, target', result'⟩ ⟨rfl, hid, hraw⟩
  dsimp only at hid hraw ⊢
  refine Leads.bind_quiet (quiet_countCooldown reading _) fun result'' => ?_
  split
  · rename_i hclose
    have hsettled : reading.Settled call.wait := by
      rw [← closesSlice_iff, ← hraw hclose.1]
      exact hclose.2
    refine (leads_completeSyncJob ?_ ?_).bind ?_
    · exact hid ▸ hmine
    · simp only [closesSlice, Bool.or_eq_true, Bool.and_eq_true] at hclose
      rw [Bool.or_eq_true]
      exact hclose.2.imp SyncStatus.terminal_of_terminalRaw And.right
    · rintro _ _ rfl
      refine Leads.ret (Or.inl ⟨hclose.1, hsettled, ?_⟩)
      rw [hid]
  · rename_i hopen
    refine Leads.ret (Or.inr ⟨?_, rfl⟩)
    rintro ⟨hmode, hsettled⟩
    rw [← closesSlice_iff, ← hraw hmode] at hsettled
    exact hopen ⟨hmode, hsettled⟩

/-- What the last pass over slices has ended: the jobs of the windows that it found settled. -/
structure EndsSettled (call : SyncWindowsCall) (book : JobBook) (targets : List MaintenanceTarget)
    (readings : List FinalReading) (book' : JobBook) : Prop where
  only : ∀ id ∈ book'.ended, id ∈ book.ended ∨ id ∈ targets.map (·.syncJobId)
  all_iff : (∀ target ∈ targets, target.syncJobId ∈ book'.ended) ↔
    ∀ reading ∈ readings, reading.Settled call.wait

theorem book_lastPass {targets : List MaintenanceTarget} {early : MaintenanceResult}
    {last : List (Move archive Archive)} {readings : List FinalReading}
    (hpass : LastPass d call theirs targets early a t last readings a' t') :
    ∀ {book : JobBook} {past : List (Move archive Archive)},
      (book.created = jobsOf past ∧ Stands theirs book a) →
      (∀ target ∈ targets, target.syncJobId ∈ book.created) →
      ∃ book', (book'.created = jobsOf (past ++ last) ∧ Stands theirs book' a') ∧
        Onward book book' ∧
        (call.mode = .slice → (targets.map (·.syncJobId)).Nodup →
          (∀ target ∈ targets, target.syncJobId ∉ book.ended) →
          EndsSettled call book targets readings book') := by
  induction hpass with
  | nil hrun =>
      intro book past hstands _
      rcases (Leads.ret (Q := fun book' _ => book' = book) rfl).post hrun hstands with
        ⟨book', hstands', hbook⟩
      subst hbook
      refine ⟨_, hstands', .refl _, fun _ _ _ => ⟨fun id hid => Or.inl hid, ?_⟩⟩
      simp
  | @cons target rest early result a a₁ a₂ a' t t₁ t₂ t' look settle moves reading readings
      hread hrun _ ih =>
      intro book past hstands hmine
      rcases book_finalizeTarget hread hrun hstands (hmine target List.mem_cons_self) with
        ⟨book₁, hstands₁, hbook⟩
      have honward : Onward book book₁ := by
        rcases hbook with ⟨_, _, rfl⟩ | ⟨_, rfl⟩
        · exact .close _ _
        · exact .refl _
      rcases ih hstands₁ (fun other hother => honward.created ▸
          hmine other (List.mem_cons_of_mem _ hother)) with ⟨book', hstands', honward', hends⟩
      refine ⟨book', by simpa using hstands', honward.trans honward', ?_⟩
      intro hmode hnodup hopen
      rw [List.map_cons, List.nodup_cons] at hnodup
      have hrest : ∀ other ∈ rest, other.syncJobId ∉ book₁.ended := by
        intro other hother hended
        have hbefore := hopen other (List.mem_cons_of_mem _ hother)
        rcases hbook with ⟨_, _, rfl⟩ | ⟨_, rfl⟩
        · rcases List.mem_cons.1 hended with heq | hended
          · exact hnodup.1 (heq ▸ List.mem_map_of_mem hother)
          · exact hbefore hended
        · exact hbefore hended
      have hlater := hends hmode hnodup.2 hrest
      have hhead : target.syncJobId ∈ book'.ended ↔ reading.Settled call.wait := by
        constructor
        · intro hended
          rcases hbook with ⟨_, hsettled, _⟩ | ⟨_, rfl⟩
          · exact hsettled
          · -- It was not ended before, nor is it one of the jobs that come after.
            rcases hlater.only _ hended with hbefore | hafter
            · exact absurd hbefore (hopen target List.mem_cons_self)
            · exact absurd hafter hnodup.1
        · intro hsettled
          rcases hbook with ⟨_, _, rfl⟩ | ⟨hnot, _⟩
          · exact honward'.ended List.mem_cons_self
          · exact absurd ⟨hmode, hsettled⟩ hnot
      refine ⟨?_, ?_⟩
      · intro id hid
        rcases hlater.only id hid with hbefore | hafter
        · rcases hbook with ⟨_, _, rfl⟩ | ⟨_, rfl⟩
          · rcases List.mem_cons.1 hbefore with rfl | hbefore
            · exact Or.inr List.mem_cons_self
            · exact Or.inl hbefore
          · exact Or.inl hbefore
        · exact Or.inr (List.mem_cons_of_mem _ hafter)
      · simp only [List.forall_mem_cons]
        rw [hhead, hlater.all_iff]

/-- The last pass of a run of the call can be told apart. -/
theorem lastPass_of_run {targets : List MaintenanceTarget} :
    ∀ {early result : MaintenanceResult} {a : Archive} {t : Int}
      {last : List (Move archive Archive)},
      Amid (Archive.among theirs) (finalizeMaintenanceResult d call.mode (!call.wait) targets early)
        a t last (.ok result) a' t' →
      ∃ readings, LastPass d call theirs targets early a t last readings a' t' := by
  induction targets with
  | nil =>
      intro early result a t last hrun
      exact ⟨[], .nil hrun⟩
  | cons target rest ih =>
      intro early result a t last hrun
      rcases hrun.bind_cases with ⟨result₁, moves₁, moves, a₂, t₂, rfl, htarget, hrest⟩
      rcases htarget.bind_cases with ⟨reading, look, settle, a₁, t₁, rfl, hread, _⟩
      rcases ih hrest with ⟨readings, hpass⟩
      exact ⟨reading :: readings, .cons hread htarget hpass⟩

end LastPass

/-! ## The theorem -/

/-- The jobs of a returned call are all ended exactly if the windows are complete windows, or the
last pass over the slices has found each of them settled. -/
theorem sync_jobs_closed (d : Deployment)
    (sched : List (Process.System.Config.Choice (archiveFleet d))) (call : SyncWindowsCall)
    (rounds : Nat) (theirs : Uuid → Prop) {a a' : Archive} {t t' : Int}
    {moves : List (Move archive Archive)} {result : MaintenanceResult}
    (ha : a = (Process.System.Config.after (archiveFleet d) sched).state)
    (hrun : Amid (Archive.among theirs) (syncWindows d call rounds) a t moves (.ok result) a' t') :
    (∃ readings, FoundLast d call rounds theirs a t moves readings a' t') ∧
      ∀ readings, FoundLast d call rounds theirs a t moves readings a' t' →
        ((∀ job ∈ a'.jobs.syncJobs, job.syncJobId ∈ jobsOf moves → job.Closed) ↔
          call.mode = .completeWindow ∨ ∀ reading ∈ readings, reading.Settled call.wait) := by
  refine ⟨?_, ?_⟩
  · unfold syncWindows at hrun
    rcases hrun.bind_cases with ⟨drained, before, last, a₁, t₁, rfl, hbefore, hlast⟩
    rcases lastPass_of_run hlast with ⟨readings, hpass⟩
    exact ⟨readings, before, last, drained, a₁, t₁, rfl, hbefore, hpass⟩
  · rintro readings ⟨before, last, ⟨targets, early⟩, a₁, t₁, rfl, hbefore, hpass⟩
    have hkeyed : a.JobsKeyed := by
      rw [ha]
      exact Archive.jobsKeyed_after d sched
    have hstart : Stands theirs {} a := stands_nil hkeyed
    have hempty : ({} : JobBook).created = jobsOf [] ∧ Stands theirs {} a := ⟨rfl, hstart⟩
    rcases (leads_windowsDrained d call rounds).post hbefore hempty with
      ⟨book, hstands, hdrained⟩
    have hmine : ∀ target ∈ targets, target.syncJobId ∈ book.created := by
      intro target htarget
      rw [hdrained.created]
      exact List.mem_map_of_mem htarget
    rcases book_lastPass hpass hstands hmine with ⟨book', ⟨hcreated, hstands'⟩, honward, hends⟩
    rw [List.nil_append] at hcreated
    have hclosed_of : (∀ id ∈ book'.created, id ∈ book'.ended) →
        ∀ job ∈ a'.jobs.syncJobs, job.syncJobId ∈ jobsOf (before ++ last) → job.Closed := by
      intro hall job hjob hid
      rw [← hcreated] at hid
      exact hstands'.closed job hjob (hall _ hid)
    cases hmode : call.mode with
    | completeWindow =>
        refine ⟨fun _ => Or.inl rfl, fun _ => hclosed_of ?_⟩
        intro id hid
        rw [honward.created] at hid
        exact honward.ended (hdrained.completeWindow hmode id hid)
    | slice =>
        have hnodup : (targets.map (·.syncJobId)).Nodup := by
          have hcreated' : book.created = targets.map (·.syncJobId) := hdrained.created
          rw [← hcreated']
          exact hstands.2.nodup
        have hopen : ∀ target ∈ targets, target.syncJobId ∉ book.ended := by
          intro target _
          rw [hdrained.slice hmode]
          exact List.not_mem_nil
        have hsettled := hends hmode hnodup hopen
        constructor
        · intro hclosed
          refine Or.inr (hsettled.all_iff.1 fun target htarget => ?_)
          by_contra hnot
          have hid : target.syncJobId ∈ book'.created := by
            rw [honward.created]
            exact hmine target htarget
          rcases hstands'.running _ hid hnot with ⟨job, hjob, heq, hrunning⟩
          have hended := hclosed job hjob (by rw [heq, ← hcreated]; exact hid)
          have hstatus := hended.2
          rw [hrunning] at hstatus
          cases hstatus
        · rintro (h | h)
          · cases h
          · refine hclosed_of fun id hid => ?_
            rw [honward.created, hdrained.created] at hid
            rcases List.mem_map.1 hid with ⟨target, htarget, rfl⟩
            exact hsettled.all_iff.2 h target htarget

/-! ## A call played alone -/

/-- The call at the start of everything, with nobody else about. -/
def playCall (call : SyncWindowsCall) :
    Option (List (Move archive Archive) × Except Exn MaintenanceResult × Archive) :=
  Process.play (fun o a => Archive.exec o 0 {} a) (fun o => Archive.ready o 0) 0 100
    (syncWindows {} call 1) {}

theorem amid_of_playCall {call : SyncWindowsCall} {moves : List (Move archive Archive)}
    {out : Except Exn MaintenanceResult} {a' : Archive}
    (h : playCall call = some (moves, out, a')) :
    Amid (Archive.among fun _ => False) (syncWindows {} call 1) {} 0 moves out a' 0 := by
  refine Process.amid_of_play ?_ h
  intro o a hready
  refine ⟨Or.inl ⟨{}, hready, rfl⟩, ?_⟩
  split
  · exact not_false
  · trivial

/-- The jobs that the moves have opened and that are not ended. -/
def openJobs (moves : List (Move archive Archive)) (a : Archive) : List SyncJobRow :=
  a.jobs.syncJobs.filter fun job => (jobsOf moves).contains job.syncJobId && !decide job.Closed

/-- The call returns, and leaves this many jobs open. -/
def leavesOpen (n : Nat) : List (Move archive Archive) × Except Exn MaintenanceResult × Archive →
    Bool
  | (moves, .ok _, a') => (openJobs moves a').length = n
  | (_, .error _, _) => false

theorem run_of_playCall {call : SyncWindowsCall} {n : Nat}
    (h : (playCall call).any (leavesOpen n) = true) :
    ∃ moves result a',
      Amid (Archive.among fun _ => False) (syncWindows {} call 1) {} 0 moves (.ok result) a' 0 ∧
        (openJobs moves a').length = n := by
  cases hplay : playCall call with
  | none =>
      rw [hplay] at h
      cases h
  | some run =>
      rcases run with ⟨moves, out, a'⟩
      rw [hplay, Option.any_some] at h
      cases out with
      | error e => cases h
      | ok result => exact ⟨moves, result, a', amid_of_playCall hplay, of_decide_eq_true h⟩

/-- A slice that the caller does not wait for is handed over to the workers. -/
def handOver : SyncWindowsCall :=
  { requests := [Archive.oneWindow] }

theorem sync_jobs_closed_handed_over :
    ∃ moves result a',
      Amid (Archive.among fun _ => False) (syncWindows {} handOver 1) {} 0 moves (.ok result) a' 0 ∧
      (∃ readings, FoundLast {} handOver 1 (fun _ => False) {} 0 moves readings a' 0) ∧
      ∀ readings, FoundLast {} handOver 1 (fun _ => False) {} 0 moves readings a' 0 →
        ((∀ job ∈ a'.jobs.syncJobs, job.syncJobId ∈ jobsOf moves → job.Closed) ↔
          handOver.mode = .completeWindow ∨
            ∀ reading ∈ readings, reading.Settled handOver.wait) := by
  have hplay : (playCall handOver).any (leavesOpen 0) = true := by decide +kernel
  rcases run_of_playCall hplay with ⟨moves, result, a', hrun, _⟩
  exact ⟨moves, result, a', hrun, sync_jobs_closed {} [] handOver 1 (fun _ => False) rfl hrun⟩

/-- A slice that the caller waits for until its time is up. -/
def waitInVain : SyncWindowsCall :=
  { requests := [Archive.oneWindow], wait := true, waitTimeoutSeconds := some 0 }

/-- The call returns, and its job is left open. -/
theorem sync_job_left_open :
    ∃ moves result a',
      Amid (Archive.among fun _ => False) (syncWindows {} waitInVain 1) {} 0 moves (.ok result) a'
        0 ∧
      ∃ job ∈ a'.jobs.syncJobs, job.syncJobId ∈ jobsOf moves ∧ ¬job.Closed := by
  have hplay : (playCall waitInVain).any (leavesOpen 1) = true := by decide +kernel
  rcases run_of_playCall hplay with ⟨moves, result, a', hrun, hopen⟩
  rcases List.exists_mem_of_length_pos (hopen ▸ Nat.one_pos) with ⟨job, hjob⟩
  have hjob' : job ∈ a'.jobs.syncJobs ∧ job.syncJobId ∈ jobsOf moves ∧ ¬job.Closed := by
    simpa [openJobs] using hjob
  exact ⟨moves, result, a', hrun, job, hjob'⟩

end Maintenance
end Huldra
