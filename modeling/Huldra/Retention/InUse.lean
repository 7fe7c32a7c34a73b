import Huldra.Maintenance.Parts
import Huldra.Queue.Budgets
import Huldra.Maintenance.Book

/-!
# InUse — collections while a maintenance call runs

A maintenance call opens its budget, then a job for each window, then queues the pages, each in a
transaction of its own.  A collection in between takes the budget away unless a row that it keeps
refers to it.  Where every collection finds such a row, the call keeps its budget to the end.
-/

namespace Huldra
namespace Archive

open Process (Prog Made Discipline)
open Process.System

variable {d : Deployment}

/-! ## Budgets in use -/

/-- What the events of a process say of it: whether it runs a maintenance call, and the budget
that the call has opened. -/
structure CallView where
  calls : Bool := false
  budget : Option Uuid := none
  deriving DecidableEq

def CallView.step (x : CallView) : (o : ArchiveOp) → archive.Answer o → CallView
  | .store (.queue (.createUpstreamRequestBudget ..)), .ok budgetId =>
      { x with budget := some budgetId }
  | _, _ => x

def calling : ArchiveClient → Bool
  | .syncWindows .. => true
  | _ => false

def callMonitor (d : Deployment) : Monitor (archiveFleet d) CallView where
  initial _ := {}
  start _ c _ := { calls := calling c }
  step x o r _ := x.step o r
  crash _ := {}
  clock _ := 0
  clock_initial _ := Process.System.no_time
  clock_start _ _ _ h := h
  clock_step _ _ _ _ h := h
  clock_crash _ := Int.le_refl 0

/-- The process has an operation left to ask for. -/
def running : Option (ArchiveProgram ArchiveOutcome) → Bool
  | some (.op _ _) => true
  | _ => false

/-- The budget of the maintenance call that the process is in, once the call has opened it. -/
def budgetInUse (procs : Nat → Option (ArchiveProgram ArchiveOutcome))
    (h : History (archiveFleet d)) (pid : Nat) : Option Uuid :=
  let x := (callMonitor d).view pid h
  if running (procs pid) && x.calls then x.budget else none

/-- Every budget in use exists. -/
def BudgetsStand (procs : Nat → Option (ArchiveProgram ArchiveOutcome))
    (h : History (archiveFleet d)) (a : Archive) : Prop :=
  ∀ pid, ∀ budgetId ∈ budgetInUse procs h pid,
    (a.store.queue.budget? budgetId).isSome = true

/-- No enqueue of a maintenance call violates a foreign key, and the call can read how many
requests of its budget were started. -/
def Served (pre : History (archiveFleet d)) (e : Event (archiveFleet d)) : Prop :=
  ((callMonitor d).view e.pid pre).calls = true →
    match e.action with
    | .op (.store (.queue (.enqueueRequestForWork ..))) r => r ≠ .error .integrityError
    | .op (.job (.getUpstreamRequestBudgetRequestsStarted _)) r => r ≠ .ok none
    | _ => True

/-! ## The condition on the collections -/

/-- A job or a queue item that the collection keeps refers to the budget. -/
def keptReference (a : Archive) (cutoff : Int) (budgetId : Uuid) : Bool :=
  (a.jobs.syncJobs.any fun job =>
      job.upstreamBudgetId = some budgetId && !a.retentionSyncJobFilter cutoff job) ||
    (a.store.queue.items.any fun row =>
      !QueueTables.collectable row cutoff &&
        (row.upstreamBudgetId = some budgetId ||
          a.store.queue.memberships.any fun m =>
            m.requestId = row.requestId && m.budgetId = budgetId))

/-- A collection finds a reference that it keeps to each budget in use. -/
def SparesInUse (pre : History (archiveFleet d)) (e : Event (archiveFleet d)) : Prop :=
  match e.action with
  | .op (.job (.gc cutoff false)) _ =>
      ∀ pid ∈ pre.map (·.pid), ∀ budgetId ∈ budgetInUse e.procs pre pid,
        e.before.keptReference cutoff budgetId = true
  | _ => True

instance (pre : History (archiveFleet d)) (e : Event (archiveFleet d)) :
    Decidable (SparesInUse pre e) := by
  unfold SparesInUse
  split <;> infer_instance

instance (pre : History (archiveFleet d)) (e : Event (archiveFleet d)) :
    Decidable (Served pre e) := by
  unfold Served
  refine @instDecidableForall _ _ inferInstance ?_
  split <;> infer_instance

/-! ## What a collection leaves of the budgets -/

theorem keptReference_iff {a : Archive} {cutoff : Int} {budgetId : Uuid} :
    a.keptReference cutoff budgetId = true ↔
      (∃ job ∈ a.jobs.syncJobs, job.upstreamBudgetId = some budgetId ∧
        a.retentionSyncJobFilter cutoff job = false) ∨
      ∃ row ∈ a.store.queue.items, QueueTables.collectable row cutoff = false ∧
        (row.upstreamBudgetId = some budgetId ∨
          ∃ m ∈ a.store.queue.memberships,
            m.requestId = row.requestId ∧ m.budgetId = budgetId) := by
  simp [keptReference]

/-- What the collection keeps refers to the budget after it exactly if it did before. -/
theorem refersTo_collect_iff {a : Archive} (hkeyed : a.JobsKeyed) (cutoff : Int)
    (budgetId : Uuid) :
    (a.collect cutoff).2.refersTo budgetId = true ↔ a.keptReference cutoff budgetId = true := by
  have hitem : ∀ row, row ∈ (a.collect cutoff).2.store.queue.items ↔
      row ∈ a.store.queue.items ∧ QueueTables.collectable row cutoff = false := by
    intro row
    rw [collect_items, List.mem_filter, Bool.not_eq_true']
  have hmembership : ∀ m, m ∈ (a.collect cutoff).2.store.queue.memberships ↔
      m ∈ a.store.queue.memberships ∧
        ∃ row ∈ (a.collect cutoff).2.store.queue.items, row.requestId = m.requestId := by
    intro m
    rw [collect_memberships, List.mem_filter]
    simp
  have hjob : ∀ job, job ∈ (a.collect cutoff).2.jobs.syncJobs ↔
      job ∈ a.jobs.syncJobs ∧ a.retentionSyncJobFilter cutoff job = false := by
    intro job
    rw [collect_jobs a cutoff hkeyed.nodup, List.mem_filter, Bool.not_eq_true']
  rw [refersTo_iff, keptReference_iff]
  constructor
  · rintro (⟨row, hrow, href⟩ | ⟨m, hm, href⟩ | ⟨job, hmem, href⟩)
    · exact Or.inr ⟨row, ((hitem row).1 hrow).1, ((hitem row).1 hrow).2, Or.inl href⟩
    · rcases (hmembership m).1 hm with ⟨hm, row, hrow, hid⟩
      exact Or.inr ⟨row, ((hitem row).1 hrow).1, ((hitem row).1 hrow).2,
        Or.inr ⟨m, hm, hid.symm, href⟩⟩
    · exact Or.inl ⟨job, ((hjob job).1 hmem).1, href, ((hjob job).1 hmem).2⟩
  · rintro (⟨job, hmem, href, hkept⟩ | ⟨row, hmem, hkept, href | ⟨m, hm, hid, href⟩⟩)
    · exact Or.inr (Or.inr ⟨job, (hjob job).2 ⟨hmem, hkept⟩, href⟩)
    · exact Or.inl ⟨row, (hitem row).2 ⟨hmem, hkept⟩, href⟩
    · exact Or.inr (Or.inl ⟨m, (hmembership m).2
        ⟨hm, row, (hitem row).2 ⟨hmem, hkept⟩, hid.symm⟩, href⟩)

/-- A running job of the budget is a reference that every collection keeps. -/
theorem keptReference_of_running {a : Archive} {job : SyncJobRow} {budgetId : Uuid}
    (hjob : job ∈ a.jobs.syncJobs) (hrunning : job.status = .running)
    (hbudget : job.upstreamBudgetId = some budgetId) (cutoff : Int) :
    a.keptReference cutoff budgetId = true :=
  keptReference_iff.2 (Or.inl ⟨job, hjob, hbudget, not_selected_of_running a hrunning cutoff⟩)

/-- So is a pending item that has the budget among its members. -/
theorem keptReference_of_pending {a : Archive} {row : QueueRow} {m : MembershipRow}
    (hrow : row ∈ a.store.queue.items) (hpending : row.status.pending = true)
    (hm : m ∈ a.store.queue.memberships) (hid : m.requestId = row.requestId) (cutoff : Int) :
    a.keptReference cutoff m.budgetId = true :=
  keptReference_iff.2 (Or.inr ⟨row, hrow, not_collectable_of_pending hpending cutoff,
    Or.inr ⟨m, hm, hid, rfl⟩⟩)

/-- A budget outlives a collection exactly if something that the collection keeps refers to it. -/
theorem collect_budget?_isSome_iff {a : Archive} (hkeyed : a.JobsKeyed) (cutoff : Int)
    (budgetId : Uuid) :
    ((a.collect cutoff).2.store.queue.budget? budgetId).isSome = true ↔
      (a.store.queue.budget? budgetId).isSome = true ∧
        a.keptReference cutoff budgetId = true := by
  rw [← refersTo_collect_iff hkeyed]
  constructor
  · intro h
    have hkept : (a.collect cutoff).2.refersTo budgetId = true := by
      rcases List.mem_map.1 (QueueTables.budget?_isSome_iff.1 h) with ⟨budget, hbudget, rfl⟩
      rw [collect_budgets] at hbudget
      exact (List.mem_filter.1 hbudget).2
    rw [collect_budget? a cutoff hkept] at h
    exact ⟨h, hkept⟩
  · rintro ⟨h, hkept⟩
    rw [collect_budget? a cutoff hkept]
    exact h

/-- A budget stays through every operation but a collection that finds no reference to it. -/
theorem budget?_exec {o : ArchiveOp} {t : Int} {input : Input} {a : Archive} {budgetId : Uuid}
    (hkeyed : a.JobsKeyed) (h : (a.store.queue.budget? budgetId).isSome = true)
    (hkept : ∀ cutoff, o = .job (.gc cutoff false) → a.keptReference cutoff budgetId = true) :
    ((exec o t input a).2.store.queue.budget? budgetId).isSome = true := by
  cases o with
  | store o =>
      rw [QueueTables.budget?_isSome_iff] at h ⊢
      change budgetId ∈ (Store.exec o t input a.store).2.queue.budgetIds
      rw [Queue.budgetIds_exec]
      exact List.mem_append_left _ h
  | job o =>
      cases o with
      | recordSyncJobPage write timestamp => exact h
      | gc cutoff dryRun =>
          cases dryRun with
          | true => exact h
          | false =>
              exact (collect_budget?_isSome_iff hkeyed cutoff budgetId).2 ⟨h, hkept cutoff rfl⟩
      | _ => exact h

/-! ## One step -/

theorem budgetInUse_of_ne {procs procs' : Nat → Option (ArchiveProgram ArchiveOutcome)}
    {h : History (archiveFleet d)} {e : Event (archiveFleet d)} {pid : Nat} (hne : pid ≠ e.pid)
    (hprocs : procs' pid = procs pid) :
    budgetInUse procs' (e :: h) pid = budgetInUse procs h pid := by
  unfold budgetInUse
  rw [hprocs, (callMonitor d).view_of_ne h (Ne.symm hne)]

theorem budgetInUse_eq_some {procs : Nat → Option (ArchiveProgram ArchiveOutcome)}
    {h : History (archiveFleet d)} {pid : Nat} {budgetId : Uuid} :
    budgetInUse procs h pid = some budgetId ↔
      running (procs pid) = true ∧ ((callMonitor d).view pid h).calls = true ∧
        ((callMonitor d).view pid h).budget = some budgetId := by
  simp [budgetInUse, and_assoc]

/-- A process that has a budget in use has begun. -/
theorem mem_pids_of_calls {pid : Nat} {h : History (archiveFleet d)}
    (hcalls : ((callMonitor d).view pid h).calls = true) : pid ∈ h.map (·.pid) := by
  induction h with
  | nil => cases hcalls
  | cons e pre ih =>
      by_cases hpid : e.pid = pid
      · rw [List.map_cons, hpid]
        exact List.mem_cons_self
      · rw [(callMonitor d).view_of_ne pre hpid] at hcalls
        exact List.mem_cons_of_mem _ (ih hcalls)

/-- What holds of a run so far, for the induction over its steps. -/
structure Standing (c : Config (archiveFleet d)) : Prop where
  keyed : c.state.JobsKeyed
  stands : BudgetsStand c.procs c.history c.state
  past : Throughout (fun pre e => BudgetsStand e.procs pre e.before ∧
    ∀ o r, e.action = .op o r → running (e.procs e.pid) = true) c.history

/-- What an action makes of the view of its process. -/
def CallView.after (x : CallView) : Action (archiveFleet d) → CallView
  | .start c => { calls := calling c }
  | .op o r => x.step o r
  | .crash => {}

/-- The only budget that comes into the view is one that has just been opened. -/
theorem CallView.step_budget {x : CallView} {o : ArchiveOp} {t : Int} {r : archive.Answer o}
    {a a' : Archive} {budgetId : Uuid} (hperf : Performed o t r a a')
    (hbudget : (x.step o r).budget = some budgetId) :
    x.step o r = x ∨ (a'.store.queue.budget? budgetId).isSome = true := by
  unfold CallView.step at hbudget ⊢
  split
  · rename_i maxRequests deadlineAt timestamp opened
    refine Or.inr (QueueTables.budget?_isSome_iff.2 ?_)
    rcases hperf.of_ok with ⟨input, _, hexec⟩
    have hopened : a.store.nextUuid = budgetId := by
      have hanswer := congrArg Prod.fst hexec
      cases hanswer
      simpa using hbudget
    have hstate := congrArg Prod.snd hexec
    subst hstate
    change budgetId ∈ (Store.exec _ t input a.store).2.queue.budgetIds
    rw [Queue.budgetIds_exec, ← hopened]
    exact List.mem_append_right _ List.mem_cons_self
  · exact Or.inl rfl

theorem view_record (c : Config (archiveFleet d)) (pid : Nat) (a : Action (archiveFleet d))
    (p : Option (ArchiveProgram ArchiveOutcome)) (state : Archive) :
    (callMonitor d).view pid (c.record pid a p state).history =
      ((callMonitor d).view pid c.history).after a := by
  simp only [Config.record, Monitor.view, if_true]
  cases a <;> rfl

theorem Standing.record {c : Config (archiveFleet d)} (h : Standing c) (pid : Nat)
    (a : Action (archiveFleet d)) (p : Option (ArchiveProgram ArchiveOutcome)) (state : Archive)
    (hkeyed : state.JobsKeyed) (hrunning : ∀ o r, a = .op o r → running (c.procs pid) = true)
    (hothers : ∀ q ≠ pid, ∀ budgetId ∈ budgetInUse c.procs c.history q,
      (state.store.queue.budget? budgetId).isSome = true)
    (hself : ∀ budgetId, (((callMonitor d).view pid c.history).after a).calls = true →
      (((callMonitor d).view pid c.history).after a).budget = some budgetId →
        (state.store.queue.budget? budgetId).isSome = true) :
    Standing (c.record pid a p state) := by
  refine ⟨hkeyed, ?_, ⟨h.stands, hrunning⟩, h.past⟩
  intro q budgetId hin
  by_cases hq : q = pid
  · subst hq
    rcases budgetInUse_eq_some.1 hin with ⟨_, hcalls, hbudget⟩
    rw [view_record] at hcalls hbudget
    exact hself budgetId hcalls hbudget
  · have hold : budgetInUse (c.record pid a p state).procs (c.record pid a p state).history q =
        budgetInUse c.procs c.history q :=
      budgetInUse_of_ne hq (setProc_of_ne c.procs p hq)
    rw [hold] at hin
    exact hothers q hq budgetId hin

theorem Standing.step {c : Config (archiveFleet d)} (h : Standing c)
    (ch : Config.Choice (archiveFleet d))
    (hspares : Throughout SparesInUse (c.step ch).history) : Standing (c.step ch) := by
  rcases Config.step_cases c ch with ⟨n, heq⟩ | ⟨pid, client, heq⟩ |
    ⟨pid, o, k, r, s', hproc, hexec, heq⟩ | ⟨pid, heq⟩
  · rw [heq]
    exact ⟨h.keyed, h.stands, h.past⟩
  · rw [heq]
    refine h.record pid _ _ _ h.keyed (by intro o r ha; cases ha)
      (fun q _ budgetId hin => h.stands q budgetId hin) ?_
    intro budgetId _ hbudget
    cases hbudget
  · rw [heq] at hspares ⊢
    have hperf : Performed o c.now r c.state s' := hexec
    have hrunning : running (c.procs pid) = true := by
      rw [hproc]
      rfl
    -- What was there before the operation is there after it.
    have hstays : ∀ q, ∀ budgetId ∈ budgetInUse c.procs c.history q,
        (s'.store.queue.budget? budgetId).isSome = true := by
      intro q budgetId hin
      rcases hperf.state with rfl | ⟨input, rfl⟩
      · exact h.stands q budgetId hin
      · refine budget?_exec h.keyed (h.stands q budgetId hin) ?_
        rintro cutoff rfl
        have hmem := mem_pids_of_calls (budgetInUse_eq_some.1 hin).2.1
        exact hspares.head q hmem budgetId hin
    refine h.record pid _ _ _ (hperf.keyed h.keyed) (fun _ _ _ => hrunning)
      (fun q _ => hstays q) ?_
    intro budgetId hcalls hbudget
    rcases CallView.step_budget hperf hbudget with hsame | hopened
    · refine hstays pid budgetId (budgetInUse_eq_some.2 ⟨hrunning, ?_, ?_⟩)
      · exact hsame ▸ hcalls
      · exact hsame ▸ hbudget
    · exact hopened
  · rw [heq]
    refine h.record pid _ _ _ h.keyed (by intro o r ha; cases ha)
      (fun q _ budgetId hin => h.stands q budgetId hin) ?_
    intro budgetId _ hbudget
    cases hbudget

theorem standing_after (sched : List (Config.Choice (archiveFleet d)))
    (hspares : Throughout SparesInUse (Config.after (archiveFleet d) sched).history) :
    Standing (Config.after (archiveFleet d) sched) := by
  refine @Config.after_induction archive (archiveFleet d)
    (fun c => Throughout SparesInUse c.history → Standing c) ?_ ?_ sched hspares
  · intro _
    refine ⟨⟨List.nodup_nil, fun _ h => nomatch h⟩, ?_, trivial⟩
    intro pid budgetId hin
    cases (budgetInUse_eq_some.1 hin).1
  · intro c ch ih hspares
    refine (ih ?_).step ch hspares
    rcases Config.step_cases c ch with ⟨n, heq⟩ | ⟨pid, client, heq⟩ |
      ⟨pid, o, k, r, s', _, _, heq⟩ | ⟨pid, heq⟩
    all_goals rw [heq] at hspares
    · exact hspares
    all_goals exact hspares.tail

/-! ## What the call asks for -/

/-- A maintenance call queues work for the budget that it has opened, and reads no other. -/
def Spends (x : CallView) : ArchiveOp → Prop
  | .store (.queue (.enqueueRequestForWork _ _ _ budgetId _ _)) =>
      x.calls = true → ∀ b ∈ budgetId, x.budget = some b
  | .job (.getUpstreamRequestBudgetRequestsStarted budgetId) =>
      x.calls = true → x.budget = some budgetId
  | _ => True

abbrev spending (d : Deployment) : Discipline archive CallView :=
  (callMonitor d).discipline Spends

/-- Nothing is asked of the programs of the other clients. -/
theorem keeps_of_not_calls {β : Type} (p : ArchiveProgram β) :
    ∀ x : CallView, x.calls = false → p.Keeps (spending d) x := by
  induction p with
  | ret b => exact fun _ _ => trivial
  | raise e => exact fun _ _ => trivial
  | op o k ih =>
      intro x hx
      refine ⟨?_, ?_⟩
      · change Spends x o
        unfold Spends
        split <;> simp [hx]
      · rintro r x' ⟨t, s, s', _, _, rfl⟩
        refine ih r _ ?_
        change (x.step o r).calls = false
        unfold CallView.step
        split <;> exact hx

/-- The operations that open no budget and spend from none but this. -/
def WithinBudget (budgetId : Option Uuid) : ArchiveOp → Prop
  | .store (.queue (.createUpstreamRequestBudget ..)) => False
  | .store (.queue (.enqueueRequestForWork _ _ _ b _ _)) => b = budgetId ∧ b ≠ none
  | .job (.getUpstreamRequestBudgetRequestsStarted b) => some b = budgetId
  | _ => True

/-- The parts of a call that opens no further budget leave its view as it is. -/
theorem wp_part {β : Type} {p : ArchiveProgram β} {budget : Option Uuid}
    (h : ArchivePart d (fun b => b = budget ∧ b ≠ none) False β p) :
    ∀ x : CallView, x = ⟨true, budget⟩ →
      p.wp (spending d) (fun x _ => x = ⟨true, budget⟩) (fun x _ => x = ⟨true, budget⟩) x := by
  have hops : p.AllOps (WithinBudget budget) := by
    cases h with
    | store hp =>
        refine allOps_embed (hp.allOps ?_ ?_)
        · intro o ho
          unfold WithinBudget
          split
          · rename_i heq
            cases heq
            exact ho
          · rename_i heq
            cases heq
            exact ho
          · rename_i heq
            cases heq
          · trivial
        · intro o ho
          unfold WithinBudget
          split
          · rename_i heq
            cases heq
            exact ho
          · rename_i heq
            cases heq
            exact ho.elim
          · trivial
          · trivial
    | @job o ho =>
        refine .call ?_
        cases o with
        | getUpstreamRequestBudgetRequestsStarted b => exact ho.1
        | _ => trivial
  refine hops.wp ?_
  rintro o ho x rfl
  refine ⟨?_, ?_⟩
  · change Spends _ o
    unfold Spends
    split
    · rintro _ b hb
      exact (Option.mem_def.1 hb).symm.trans ho.1 |>.symm
    · exact fun _ => ho.symm
    · trivial
  · rintro r x' ⟨t, s, s', _, _, rfl⟩
    change CallView.step _ o r = _
    unfold CallView.step
    split
    · exact ho.elim
    · rfl

theorem keeps_syncWindows (call : SyncWindowsCall) (rounds : Nat) :
    (Maintenance.syncWindows d call rounds).Keeps (spending d) { calls := true } := by
  -- From any view of a call its parts lead to views of a call.
  let A : ∀ β : Type, ArchiveProgram β → Prop := fun _ p => ∀ x : CallView, x.calls = true →
    p.wp (spending d) (fun x _ => x.calls = true) (fun x _ => x.calls = true) x
  have hcalls : ∀ {β : Type} {p : ArchiveProgram β} {budget : Option Uuid},
      (∀ x : CallView, x = ⟨true, budget⟩ →
        p.wp (spending d) (fun x _ => x = ⟨true, budget⟩) (fun x _ => x = ⟨true, budget⟩) x) →
      p.wp (spending d) (fun x _ => x.calls = true) (fun x _ => x.calls = true)
        ⟨true, budget⟩ := by
    intro β p budget h
    refine Prog.wp_mono ?_ ?_ p _ (h _ rfl)
    · rintro x _ rfl
      rfl
    · rintro x _ rfl
      rfl
  have hparts : ∀ β (p : ArchiveProgram β), ArchivePart d (fun _ => False) False β p → A β p := by
    rintro β p hp ⟨_, budget⟩ rfl
    exact hcalls (wp_part (hp.mono (fun _ h => h.elim) id))
  have hplanned : ∀ (plan : List Maintenance.PlannedRequest) (timeout deadline deadlineAt : Int),
      Made A (Maintenance.syncPlanned d call rounds plan timeout deadline deadlineAt) := by
    intro plan timeout deadline deadlineAt
    refine .part ?_
    rintro ⟨_, budget⟩ rfl
    refine (Prog.wp_bind ..).2 ?_
    unfold createUpstreamRequestBudget
    split
    · rfl
    · refine ⟨trivial, ?_⟩
      rintro (e | now) x' ⟨t, s, s', _, _, rfl⟩
      · rfl
      · refine ⟨trivial, ?_⟩
        rintro (e | budgetId) x' ⟨t, s, s', _, _, rfl⟩
        · rfl
        · exact hcalls (Made.wp (fun _ _ => wp_part)
            (Maintenance.made_budgeted call rounds plan ⟨rfl, Option.some_ne_none _⟩ timeout))
  exact Prog.keeps_of_wp ((Maintenance.made_syncWindows hparts call rounds hplanned).wp
    (fun _ _ h => h) _ rfl)

theorem keeps_spending (c : ArchiveClient) (pid : Nat) :
    (c.program d pid).Keeps (spending d) { calls := calling c } := by
  cases c with
  | syncWindows call rounds =>
      refine (Prog.wp_bind ..).2 (Prog.wp_mono ?_ ?_ _ _ (keeps_syncWindows call rounds))
      · exact fun _ _ _ => trivial
      · exact fun _ _ _ => trivial
  | store c => exact keeps_of_not_calls _ _ rfl
  | ensure request => exact keeps_of_not_calls _ _ rfl
  | gc cutoff dryRun => exact keeps_of_not_calls _ _ rfl

/-! ## The theorem -/

theorem served_of_stands {pre : History (archiveFleet d)} {e : Event (archiveFleet d)}
    (hlegal : Legal pre e) (hdisciplined : Disciplined (spending d) (callMonitor d).view pre e)
    (hstands : BudgetsStand e.procs pre e.before)
    (hrunning : ∀ o r, e.action = .op o r → running (e.procs e.pid) = true) : Served pre e := by
  intro hcalls
  split
  · rename_i request cacheKey workKind budgetId timeout now r ha
    have hspends := hdisciplined.1 _ _ ha
    -- The budget it queues for is the one it has opened, and that is in use.
    have hpresent : ∀ b ∈ budgetId, b ∈ e.before.store.queue.budgetIds := by
      intro b hb
      exact QueueTables.budget?_isSome_iff.1 (hstands e.pid b
        (budgetInUse_eq_some.2 ⟨hrunning _ _ ha, hcalls, hspends hcalls b hb⟩))
    rcases hlegal.executed ha with ⟨input, _, hexec⟩ | ⟨exn, hfault, rfl, _⟩
    · have hanswer := congrArg Prod.fst hexec
      rintro rfl
      exact QueueTables.enqueue_of_present hpresent _ request cacheKey workKind timeout now hanswer
    · rintro heq
      cases heq
      cases hfault
  · rename_i budgetId r ha
    have hspends := hdisciplined.1 _ _ ha
    have hsome := hstands e.pid budgetId
      (budgetInUse_eq_some.2 ⟨hrunning _ _ ha, hcalls, hspends hcalls⟩)
    rintro rfl
    rcases Performed.of_ok (hlegal.executed ha) with ⟨input, _, hexec⟩
    have hanswer : (e.before.store.queue.budget? budgetId).map (·.requestsStarted) = none :=
      Except.ok.inj (congrArg Prod.fst hexec)
    rw [Option.map_eq_none_iff] at hanswer
    rw [hanswer] at hsome
    cases hsome
  · trivial

/-- In every run in which each collection finds a reference that it keeps to each budget in use,
no budget in use is ever missing, no enqueue of a call violates the foreign key, and the requests
started for the budget stay readable. -/
theorem budgets_in_use_stand (d : Deployment) (sched : List (Config.Choice (archiveFleet d)))
    (hspares : Throughout SparesInUse (Config.after (archiveFleet d) sched).history) :
    BudgetsStand (Config.after (archiveFleet d) sched).procs
      (Config.after (archiveFleet d) sched).history (Config.after (archiveFleet d) sched).state ∧
    Throughout Served (Config.after (archiveFleet d) sched).history := by
  have hstanding := standing_after sched hspares
  have hkept : (callMonitor d).Kept fun _ _ => True :=
    ⟨fun _ => trivial, fun _ _ _ _ _ => trivial, fun _ _ _ _ _ _ => trivial, fun _ _ _ => trivial⟩
  have hdisciplined := (callMonitor d).disciplined_after hkept
    (fun pid _ c _ _ _ => keeps_spending c pid) sched
  refine ⟨hstanding.stands, ?_⟩
  exact (((Config.legal_after _ sched).and hdisciplined).and hstanding.past).mono
    fun pre e h => served_of_stands h.1.1 h.1.2 h.2.1 h.2.2

/-- A maintenance call of one window, and a collection between its operations. -/
def collectedAfter (n : Nat) : List (Config.Choice (archiveFleet {})) :=
  .start 0 (.syncWindows { requests := [oneWindow], maxRequestsTotal := 1 } 1) ::
    archiveRuns {} 0 n ++ .start 1 (.gc 0 false) :: archiveRuns {} 1 1

/-- Once the job of the window is there, a collection spares the budget. -/
theorem budgets_in_use_stand_job_opened :
    BudgetsStand (Config.after (archiveFleet {}) (collectedAfter 9)).procs
      (Config.after (archiveFleet {}) (collectedAfter 9)).history
      (Config.after (archiveFleet {}) (collectedAfter 9)).state ∧
    Throughout Served (Config.after (archiveFleet {}) (collectedAfter 9)).history :=
  budgets_in_use_stand {} (collectedAfter 9) (by decide +kernel)

/-- Before the job is there nothing refers to the budget: a collection takes it from the call, and
the enqueue of the window fails. -/
theorem budget_in_use_collected :
    ¬BudgetsStand (Config.after (archiveFleet {}) (collectedAfter 5)).procs
      (Config.after (archiveFleet {}) (collectedAfter 5)).history
      (Config.after (archiveFleet {}) (collectedAfter 5)).state ∧
    ¬Throughout Served
      (Config.after (archiveFleet {}) (collectedAfter 5 ++ archiveRuns {} 0 6)).history := by
  refine ⟨?_, by decide +kernel⟩
  intro hstands
  have hgone := hstands 0 0 (by decide +kernel)
  revert hgone
  decide +kernel

end Archive
end Huldra
